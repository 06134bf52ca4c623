import DocumentCodec.Proofs.Reencoding.Scalar
import DocumentCodec.Proofs.RoundTrip.Lossless
/-!
# Bodies with bodies inside, written again

A list comes back with the same number of elements, each of the kind of its tag, so it is written
with the same tags; a table comes back with the same labels, and each of its members is written in
the same place.  A record that was decoded pins each of its fields to the tag that it was written
under, which is the one that its value asks for anyway: so nothing changes when the field that marks
an object is taken out and set again without a pin.

Everything here is given that the bodies one level deeper are written again, which is `Rewrites`.
-/

namespace DocumentCodec

/-- A record that is written as part of another comes back as what it was: its class name is not
taken for none, and nobody takes it for an object. -/
structure Repeatable (w : TypeTag × Value) : Prop where
  classed : ∀ record, heldRecord w = some record → record.className ≠ some ""
  unmarked : ∀ record, heldRecord w = some record →
    record.contains Record.serializableClassField = false

/-- What is recalled of a body is of the kind of its tag, and is written under it as the same
bytes. -/
structure Rewrites (context : Context) (write : BodyWriter) (remember : BodyRecall) : Prop where
  again : ∀ {field : String} {tag : TypeTag} {linked : Option TypeTag} {value : Value} {start : Nat}
    {earlier calls : List LinkTarget} {bytes : List UInt8},
    write field tag linked value start earlier = ⟨bytes, calls, .ok ()⟩ →
    (∀ w ∈ value.written context tag linked, Repeatable w) →
    Yields context (remember tag linked value) ((value.written context tag linked).flatMap linkTargets)
      earlier (earlier ++ calls) fun made => made.naturalTag = some tag ∧
        Encoder.Writes (write field tag linked made) start bytes
  text : ∀ {tag : TypeTag} {linked : Option TypeTag} {text : String} {made : Value}
    {earlier last : List LinkTarget}, remember tag linked (.string text) earlier = some (made, last) →
    made = .string text

namespace Rewrites

variable {context : Context} {write : BodyWriter} {remember : BodyRecall}
  (rewrites : Rewrites context write remember) {start : Nat} {earlier calls : List LinkTarget}
  {bytes : List UInt8}
include rewrites

/-! ## Lists and sets

Elements come back under the tags of their kinds, so the list is written with the tags it had,
whether its elements are declared again or not. -/

/-- An element that comes back is written again behind the same tag: null stays null, and any other
value is of the kind of the tag that it was written under. -/
theorem item {field : String} {linked : Option TypeTag} {item : Value}
    (repeatable : ∀ w ∈ writtenItem context linked item, Repeatable w)
    (run : Encoding.writeItem write field (linked.filter (·.isConcrete)) item start earlier
      = ⟨bytes, calls, .ok ()⟩) :
    Yields context (Recall.item remember linked item)
      ((writtenItem context linked item).flatMap linkTargets) earlier (earlier ++ calls) fun made =>
        made.isTransient = false ∧
          Encoder.Writes (Encoding.writeItem write field (linked.filter (·.isConcrete)) made) start
            bytes := by
  rw [writtenItem] at repeatable
  cases WrittenItem.of_eq_ok run with
  | null null =>
    rw [Recall.item, writtenItem, inSlot_of_null null, inSlot_of_null null, List.append_nil]
    exact .pure ⟨rfl, fun _ => rfl⟩
  | @body chosen _ _ notNull typed written =>
    have choice := itemTag_eq_ok typed
    rw [inSlot_of_ok notNull choice] at repeatable
    rw [Recall.item, writtenItem, inSlot_of_ok notNull choice, inSlot_of_ok notNull choice]
    refine (rewrites.again written repeatable).mono fun made fact => ?_
    obtain ⟨natural, again⟩ := fact
    -- a declared type is the same as before, and else the kind asks for the tag
    have typed' : (linked.filter (·.isConcrete) <|> made.naturalTag) = some chosen := by
      rw [natural]
      cases declared : linked.filter (·.isConcrete) with
      | none => rfl
      | some tag =>
        rw [declared] at typed
        exact typed
    refine ⟨Value.isTransient_of_naturalTag natural, ?_⟩
    exact Encoding.writes_item (Value.isNull_of_naturalTag natural) typed' again

/-- A list that comes back is written again, element by element; those that were left out the first
time are not in it, so the number of elements in front is the same. -/
theorem items {field : String} {linked : Option TypeTag} {items : List Value}
    (repeatable : ∀ w ∈ writtenItems context linked items, Repeatable w)
    (run : Encoding.writeItems write field linked items start earlier = ⟨bytes, calls, .ok ()⟩) :
    Yields context (Recall.items remember linked items)
      ((writtenItems context linked items).flatMap linkTargets) earlier (earlier ++ calls)
      fun made => Encoder.Writes (Encoding.writeItems write field linked made) start bytes := by
  obtain ⟨elements, each, rfl⟩ := Encoding.writeItems_eq_ok run
  rw [writtenItems_eq] at repeatable ⊢
  rw [Recall.items]
  generalize items.filter (!·.isTransient) = kept at each repeatable ⊢
  rw [List.flatMap_assoc]
  refine .length ?_
  -- none of the elements that came back is left out the second time
  refine (Yields.forM (fun made => made.isTransient = false) kept (fun element there _ _ _ _ =>
    rewrites.item fun w inside => repeatable w (List.mem_flatMap.mpr ⟨element, there, inside⟩))
    each).mono ?_
  rintro mades ⟨same, all, again⟩
  rw [← same] at again ⊢
  exact Encoding.writes_items all again

/-! ## Slots

`Refilled` says what is in a slot that was filled, read and filled again: the same place, the same
tag, and a body of the same bytes. -/

end Rewrites

/-- What is recalled of a slot is written in the same slot again: nothing for a null value, and else
a value of the kind of the tag, as the same bytes. -/
inductive Refilled (write : BodyWriter) (field : String) (tag : Except Unsupported TypeTag)
    (linked : Option TypeTag) (place : Nat) :
    Option (TypeTag × Value) → Option Filling → List UInt8 → Prop where
  | nothing : Refilled write field tag linked place none none []
  | body {chosen : TypeTag} {made : Value} {bytes : List UInt8} (choice : tag = .ok chosen)
      (natural : made.naturalTag = some chosen)
      (written : Encoder.Writes (write field chosen linked made) place bytes)
      (reached : place ≤ Slot.maxPointer) :
      Refilled write field tag linked place (some (chosen, made)) (some ⟨place, chosen⟩) bytes

namespace Refilled

variable {write : BodyWriter} {field : String} {tag : Except Unsupported TypeTag}
  {linked : Option TypeTag} {place : Nat} {held : Option (TypeTag × Value)}
  {filling : Option Filling} {bytes : List UInt8}

/-- A value that came back from a slot is not left out. -/
theorem isTransient (refilled : Refilled write field tag linked place held filling bytes) :
    ((held.map Prod.snd).getD Value.null).isTransient = false := by
  cases refilled with
  | nothing => rfl
  | body _ natural _ _ => exact Value.isTransient_of_naturalTag natural

/-- A member with the value that came back fills the slot as before, if it asks for the same tag. -/
theorem fills (refilled : Refilled write field tag linked place held filling bytes) {member : Member}
    (sameField : member.field = field) (sameLinked : member.linked = linked)
    (comesBack : member.value = (held.map Prod.snd).getD .null)
    (asks : ∀ chosen made, held = some (chosen, made) → made.naturalTag = some chosen →
      tag = .ok chosen → member.tag = .ok chosen) :
    Member.Fills write member place filling bytes := by
  subst sameField sameLinked
  cases refilled with
  | nothing =>
    refine .null ?_
    rw [comesBack]
    rfl
  | body choice natural written reached =>
    refine .body ?_ (asks _ _ rfl natural choice) ?_ reached
    · rw [comesBack]
      exact Value.isNull_of_naturalTag natural
    · rw [comesBack]
      exact written

end Refilled

namespace Rewrites

variable {context : Context} {write : BodyWriter} {remember : BodyRecall}
  (rewrites : Rewrites context write remember) {start : Nat} {earlier calls : List LinkTarget}
  {bytes : List UInt8}
include rewrites

/-- What comes back for a slot fills it again: a null value leaves it empty, and a body is written
again under the tag that the slot holds. -/
theorem slot {field : String} {value : Value} {tag : Except Unsupported TypeTag}
    {linked : Option TypeTag} {place : Nat} {filling : Option Filling}
    (body : SlotBody value tag (fun tag => write field tag linked value) place earlier filling bytes
      calls)
    (repeatable : ∀ w ∈ inSlot value tag [] fun tag => value.written context tag linked,
      Repeatable w) :
    Yields context (Recall.slot (fun tag => remember tag linked value) value tag)
      ((inSlot value tag [] fun tag => value.written context tag linked).flatMap linkTargets)
      earlier (earlier ++ calls) fun held =>
        Refilled write field tag linked place held filling bytes := by
  cases body with
  | null isNull =>
    rw [Recall.slot, inSlot_of_null isNull, inSlot_of_null isNull, List.append_nil]
    exact .pure .nothing
  | body notNull choice written reached =>
    rw [inSlot_of_ok notNull choice] at repeatable
    rw [Recall.slot, inSlot_of_ok notNull choice, inSlot_of_ok notNull choice]
    refine (rewrites.again written repeatable).map fun made fact => ?_
    exact .body choice fact.1 fact.2 reached

end Rewrites

/-- The bodies of a table are written again, behind the same header: each member has the label and
the slot that it had. -/
theorem Yields.bodies {α β : Type} {context : Context} {write : BodyWriter}
    {remember : α → Recalling β} {aims : α → List LinkTarget} (member : α → Member)
    (member' : β → Member) (good : β → Prop) : ∀ (kept : List α) {place : Nat}
    {earlier calls : List LinkTarget}
    {fillings : List (Option Filling)} {bytes : List UInt8},
    (∀ a ∈ kept, ∀ {place earlier filling bytes calls},
      SlotBody (member a).value (member a).tag
        (fun tag => write (member a).field tag (member a).linked (member a).value) place earlier
        filling bytes calls →
      Yields context (remember a) (aims a) earlier (earlier ++ calls) fun made =>
        good made ∧ (member' made).label = (member a).label ∧
          (member' made).pinned = (member a).pinned ∧
          Member.Fills write (member' made) place filling bytes) →
    Bodies.write (((kept.map member).map (Member.entry write)).map (·.body)) place earlier
      = ⟨fillings, bytes, calls, .ok ()⟩ →
    Yields context (kept.mapM remember) (kept.flatMap aims) earlier (earlier ++ calls) fun mades =>
      mades.length = kept.length ∧ (∀ made ∈ mades, good made) ∧
        Entry.encodeAll ((mades.map member').map (Member.entry write)) fillings
          = Entry.encodeAll ((kept.map member).map (Member.entry write)) fillings ∧
        Member.FillAll write (mades.map member') place fillings bytes := by
  intro kept
  induction kept with
  | nil =>
    intro place earlier calls fillings bytes _ run
    cases run
    rw [List.append_nil]
    exact .pure (a := ([] : List β)) ⟨rfl, fun made there => (by cases there), rfl, .nil⟩
  | cons a rest ih =>
    intro place earlier calls fillings bytes each run
    rw [List.map_cons, List.map_cons, List.map_cons] at run
    obtain ⟨filling, fillings₂, bytes₁, bytes₂, calls₁, calls₂, body, later, rfl, rfl, rfl⟩ :=
      Bodies.write_cons_eq_ok run
    rw [List.mapM_cons, List.flatMap_cons, ← List.append_assoc]
    -- with the label and the slot the header keeps its size, so all bodies stay where they were
    refine (each a List.mem_cons_self body).bind fun made _ fact => ?_
    obtain ⟨fine, label, pinned, fills⟩ := fact
    refine (ih (fun other there => each other (List.mem_cons_of_mem _ there)) later).map ?_
    rintro mades ⟨same, all, header, filled⟩
    refine ⟨congrArg (· + 1) same, ?_, ?_, .cons fills filled⟩
    · intro other there
      rcases List.mem_cons.mp there with rfl | inside
      · exact fine
      · exact all other inside
    · rw [List.map_cons, List.map_cons, List.map_cons, List.map_cons, Entry.encodeAll,
        Entry.encodeAll, List.tail_cons, header]
      show (member' made).label ++ Slot.encode (member' made).pinned _ ++ _ = _
      rw [label, pinned]
      rfl

namespace Rewrites

variable {context : Context} {write : BodyWriter} {remember : BodyRecall}
  (rewrites : Rewrites context write remember) {start : Nat} {earlier calls : List LinkTarget}
  {bytes : List UInt8}
include rewrites

/-! ## Maps

The same members in the same order give the same slots, and their bodies begin where they did. -/

/-- A member of a map comes back under its key and fills the same slot again. -/
theorem member {field : String} {pair : String × Value} {place : Nat} {filling : Option Filling}
    (body : SlotBody pair.2 (memberTag pair.2) (fun tag => write field tag none pair.2) place earlier
      filling bytes calls)
    (repeatable : ∀ w ∈ writtenMember context pair, Repeatable w) :
    Yields context (Recall.member remember pair)
      ((writtenMember context pair).flatMap linkTargets) earlier (earlier ++ calls) fun made =>
        made.2.isTransient = false ∧
          (Member.ofPair field made).label = (Member.ofPair field pair).label ∧
          (Member.ofPair field made).pinned = (Member.ofPair field pair).pinned ∧
          Member.Fills write (Member.ofPair field made) place filling bytes := by
  rw [Recall.member]
  refine .string ((rewrites.slot body repeatable).map fun held refilled => ?_)
  -- the key is the same, so the label is; the tag is that of the value's own kind
  refine ⟨refilled.isTransient, rfl, rfl, refilled.fills rfl rfl rfl ?_⟩
  rintro chosen made rfl natural -
  exact memberTag_natural natural

/-- A map that comes back is written again.  Its header is the same, label by label, and each member
fills its slot as before. -/
theorem members {field : String} {members : List (String × Value)}
    (repeatable : ∀ w ∈ writtenMembers context members, Repeatable w)
    (run : Encoding.writeMap write field members start earlier = ⟨bytes, calls, .ok ()⟩) :
    Yields context (Recall.members remember members)
      ((writtenMembers context members).flatMap linkTargets) earlier (earlier ++ calls) fun made =>
        Encoder.Writes (Encoding.writeMap write field made) start bytes := by
  rw [Encoding.writeMap_eq, Encoding.mapHead, Encoding.mapMembers] at run
  rw [writtenMembers_eq] at repeatable ⊢
  rw [Recall.members]
  generalize members.filter (!·.2.isTransient) = kept at run repeatable ⊢
  obtain ⟨fillings, bodies, written, rfl⟩ := writeTable_eq_ok run
  rw [List.flatMap_assoc]
  -- the table is gone through member by member, each with the slot that it filled
  refine .length ((Yields.bodies (Member.ofPair field) (Member.ofPair field)
    (fun made => made.2.isTransient = false) kept (fun pair there _ _ _ _ _ body =>
      rewrites.member body fun w inside =>
        repeatable w (List.mem_flatMap.mpr ⟨pair, there, inside⟩)) written).mono ?_)
  rintro mades ⟨same, all, header, filled⟩
  -- nothing of what came back is left out the second time
  have kept' : mades.filter (!·.2.isTransient) = mades :=
    List.filter_eq_self.mpr fun made there => by rw [all made there]; rfl
  -- so the number in front and the table behind it are those of the first writing
  rw [← header, ← same] at filled ⊢
  have head : Encoding.mapHead mades = Varint.encode (UInt64.ofNat mades.length) := by
    rw [Encoding.mapHead, kept']
  have again : Encoding.mapMembers field mades = mades.map (Member.ofPair field) := by
    rw [Encoding.mapMembers, kept']
  rw [← head, ← again] at filled ⊢
  exact Encoding.writes_map filled

end Rewrites

/-! ## Records

The header is written from names and pins; both are what they were, or what they would have been
without a pin. -/

/-- A field that was decoded is not left out, and is written alike with its pin and without. -/
structure Field.IsSettled (context : Context) (className : Option String) (field : Field) : Prop where
  kept : Encoding.isOmitted field = false
  unpinned : Member.ofField context className { field with pinned := none }
    = Member.ofField context className field

/-- A field that came back from its slot is settled. -/
theorem Refilled.isSettled {context : Context} {className : Option String} {write : BodyWriter}
    {field : Field} {linked : Option TypeTag} {place : Nat} {held : Option (TypeTag × Value)}
    {filling : Option Filling} {bytes : List UInt8}
    (refilled : Refilled write field.name
      (Encoding.fieldTag field (pinnedTag context className field.name)) linked place held filling
      bytes) :
    Field.IsSettled context className
      ⟨field.name, (held.map Prod.snd).getD .null, held.map Prod.fst⟩ := by
  cases refilled with
  | nothing => exact ⟨rfl, rfl⟩
  | @body chosen made _ choice natural written reached =>
    obtain ⟨withPin, without⟩ := Encoding.fieldTag_natural field.name natural
      (Encoding.fieldTag_pinned field choice)
    exact ⟨Encoding.isOmitted_natural field.name natural,
      Member.ofField_congr rfl rfl (without.trans withPin.symm)⟩

namespace Rewrites

variable {context : Context} {write : BodyWriter} {remember : BodyRecall}
  (rewrites : Rewrites context write remember) {start : Nat} {earlier calls : List LinkTarget}
  {bytes : List UInt8}
include rewrites

/-- A field that comes back is written again under the same heading and in the same slot.  It is
pinned to the tag that it was written under now, and the schema has nothing against that, for it
chose the same tag or left the choice open. -/
theorem field {className : Option String} {field : Field} {place : Nat} {filling : Option Filling}
    (body : SlotBody field.value
      (Encoding.fieldTag field (pinnedTag context className field.name))
      (fun tag => write field.name tag (linkedTag context className field.name) field.value) place
      earlier filling bytes calls)
    (repeatable : ∀ w ∈ writtenField context className field, Repeatable w) :
    Yields context (Recall.field context remember className field)
      ((writtenField context className field).flatMap linkTargets) earlier (earlier ++ calls)
      fun made => made.IsSettled context className ∧
        (Member.ofField context className made).label
          = (Member.ofField context className field).label ∧
        (Member.ofField context className made).pinned
          = (Member.ofField context className field).pinned ∧
        Member.Fills write (Member.ofField context className made) place filling bytes := by
  rw [Recall.field]
  refine .check fun _ mid headed => ⟨Recall.heading_eq_some headed, ?_⟩
  refine (rewrites.slot body repeatable).map fun held refilled => ?_
  -- the field that is made has the name, and the pin that the slot says
  generalize same : (⟨field.name, (held.map (·.2)).getD .null, held.map (·.1)⟩ : Field) = made
  have name : made.name = field.name := same ▸ rfl
  have value : made.value = (held.map Prod.snd).getD .null := same ▸ rfl
  have settled : made.IsSettled context className := same ▸ refilled.isSettled
  obtain ⟨label, pinned⟩ : (Member.ofField context className made).label = _ ∧ _ :=
    Member.label_ofField name
  refine ⟨settled, label, pinned, refilled.fills ?_ ?_ ?_ ?_⟩
  · rw [Member.field_ofField, name]
  · rw [Member.linked_ofField, name]
  · rw [Member.value_ofField, value]
  · rintro chosen inside rfl natural choice
    rw [Member.tag_ofField, ← same]
    exact (Encoding.fieldTag_natural _ natural (Encoding.fieldTag_pinned field choice)).1

/-- A record is written again with the same class name. -/
theorem record {record : Record} (classed : record.className ≠ some "")
    (repeatable : ∀ w ∈ record.written context, Repeatable w)
    (run : Encoding.writeRecord context write record start earlier = ⟨bytes, calls, .ok ()⟩) :
    Yields context (Recall.record context remember record)
      ((record.written context).flatMap linkTargets) earlier (earlier ++ calls) fun made =>
        made.className = record.className ∧
          (∀ field ∈ made.fields, field.IsSettled context record.className) ∧
          Encoder.Writes (Encoding.writeRecord context write made) start bytes := by
  rw [Encoding.writeRecord_eq, Encoding.recordMembers] at run
  rw [record.written_eq, writtenFields_eq] at repeatable ⊢
  rw [Recall.record]
  generalize record.fields.filter (!Encoding.isOmitted ·) = kept at run repeatable ⊢
  obtain ⟨fillings, bodies, written, rfl⟩ := writeTable_eq_ok run
  rw [List.flatMap_assoc]
  refine .string ?_
  rw [Binder.named_new classed]
  refine (Yields.map (Yields.bodies (Member.ofField context record.className)
    (Member.ofField context record.className) (Field.IsSettled context record.className) kept
    (fun field there _ _ _ _ _ body => ?_) written) ?_)
  · simp only [Member.value_ofField, Member.tag_ofField, Member.field_ofField,
      Member.linked_ofField] at body
    exact rewrites.field body fun w inside =>
      repeatable w (List.mem_flatMap.mpr ⟨field, there, inside⟩)
  · rintro mades ⟨-, settled, header, filled⟩
    refine ⟨rfl, settled, ?_⟩
    -- nor is any field that came back
    have kept' : mades.filter (!Encoding.isOmitted ·) = mades :=
      List.filter_eq_self.mpr fun made there => by rw [(settled made there).kept]; rfl
    have again : Encoding.recordMembers context
        ⟨record.className, RecordId.empty, mades, false⟩
        = mades.map (Member.ofField context record.className) := by
      rw [Encoding.recordMembers, kept']
    rw [← header, ← again] at filled ⊢
    exact Encoding.writes_record filled

end Rewrites

/-! ## Embedded records and objects

An object was made of a record with the mark taken out.  To write it again is to write the record
with the mark put back, and the mark stood last, where it is put now. -/

/-- The fields that come back have the names of those that were not left out, in order. -/
theorem Recall.fieldNames_record {context : Context} {inner : BodyRecall} {record made : Record}
    {earlier last : List LinkTarget}
    (run : Recall.record context inner record earlier = some (made, last)) :
    made.fieldNames = (record.fields.filter (!Encoding.isOmitted ·)).map (·.name) := by
  obtain ⟨className, mid, named, run⟩ := Recalling.run_bind_eq_some.mp run
  obtain ⟨fields, mid', each, same⟩ := Recalling.run_bind_eq_some.mp run
  cases same
  refine Recalling.map_mapM (fun field earlier last made run => ?_) _ each
  obtain ⟨_, mid, -, run⟩ := Recalling.run_bind_eq_some.mp run
  obtain ⟨held, mid', -, same⟩ := Recalling.run_bind_eq_some.mp run
  cases same
  rfl

/-- What comes back of a record has no fields that the record did not have. -/
theorem Recall.absent_record {context : Context} {inner : BodyRecall} {record made : Record}
    {earlier last : List LinkTarget} {name : String} (absent : record.contains name = false)
    (run : Recall.record context inner record earlier = some (made, last)) :
    ∀ field ∈ made.fields, field.name ≠ name :=
  Record.absent_of_kept (Recall.fieldNames_record run) absent

/-- The field that marks an object is recalled as it was, but for the pin. -/
theorem Rewrites.recalled_marker {context : Context} {write : BodyWriter} {inner : BodyRecall}
    (rewrites : Rewrites context write inner) {className : Option String} {name text : String}
    {made : Field} {earlier last : List LinkTarget}
    (run : Recall.field context inner className ⟨name, .string text, none⟩ earlier
      = some (made, last)) : ∃ pinned, made = ⟨name, .string text, pinned⟩ := by
  obtain ⟨_, mid, -, run⟩ := Recalling.run_bind_eq_some.mp run
  obtain ⟨held, mid', slot, same⟩ := Recalling.run_bind_eq_some.mp run
  cases same
  -- the mark has no pin, so whatever is declared for it is its tag
  have choice : ∃ chosen, Encoding.fieldTag ⟨name, .string text, none⟩
      (pinnedTag context className name) = .ok chosen := by
    cases pinnedTag context className name with
    | none => exact ⟨_, rfl⟩
    | some declared => exact ⟨_, rfl⟩
  obtain ⟨chosen, choice⟩ := choice
  rw [Recall.slot, inSlot_of_ok rfl choice] at slot
  obtain ⟨value, mid, recalled, same⟩ := Recalling.run_bind_eq_some.mp slot
  cases same
  exact ⟨some chosen, congrArg (Field.mk name · _) (rewrites.text recalled)⟩

/-- What a marked record is taken for is the object that it stands for. -/
theorem Recall.eq_of_embed_append {context : Context}
    (honest : ∀ registry, context.registry = some registry → registry.IsHonest)
    {className : String} {pinned : Option TypeTag} {record : Record} {value : Value}
    (absent : ∀ field ∈ record.fields, field.name ≠ Record.serializableClassField)
    (embedded : embed context
      (record.append Record.serializableClassField (.string className) pinned) = some value) :
    value = .serializable className record := by
  rw [embed, Record.field?_append absent, Record.remove_append absent] at embedded
  obtain ⟨registry, known, embedded⟩ := Option.bind_eq_some_iff.mp embedded
  obtain ⟨object, outcome, same⟩ := Option.bind_eq_some_iff.mp embedded
  have object := (honest registry known).makeSerializable outcome
  subst object
  cases same
  rfl

/-- What is recalled of a marked record is a record without the mark, marked. -/
theorem Rewrites.recalled_markedRecord {context : Context} {write : BodyWriter} {inner : BodyRecall}
    (rewrites : Rewrites context write inner) {className : String} {record made : Record}
    {earlier last : List LinkTarget}
    (unmarked : record.contains Record.serializableClassField = false)
    (run : Recall.record context inner (Encoding.markedRecord className record) earlier
      = some (made, last)) :
    ∃ (rest : Record) (pinned : Option TypeTag),
      made = rest.append Record.serializableClassField (.string className) pinned ∧
      ∀ field ∈ rest.fields, field.name ≠ Record.serializableClassField := by
  obtain ⟨name, mid, named, each⟩ := Recalling.run_bind_eq_some.mp run
  obtain ⟨fields, mid', each, same⟩ := Recalling.run_bind_eq_some.mp each
  cases same
  rw [Encoding.markedRecord, Record.className_set, Record.fields_set unmarked, List.filter_append,
    List.mapM_append] at each
  -- the fields of the record come back first, and the mark behind them
  obtain ⟨others, asked, first, each⟩ := Recalling.run_bind_eq_some.mp each
  obtain ⟨marker, asked', each, same⟩ := Recalling.run_bind_eq_some.mp each
  cases same
  have kept : [(⟨Record.serializableClassField, .string className, none⟩ : Field)].filter
      (!Encoding.isOmitted ·) = [⟨Record.serializableClassField, .string className, none⟩] := rfl
  rw [kept] at each
  obtain ⟨field, mid, later, each, none, rfl⟩ := Recalling.run_mapM_cons.mp each
  cases none
  obtain ⟨pinned, rfl⟩ := rewrites.recalled_marker each
  rw [Encoding.markedRecord, Record.className_set] at named
  have rest : Recall.record context inner record earlier
      = some ({ Binder.named name Record.new with fields := others }, asked) :=
    Recalling.run_bind_eq_some.mpr ⟨name, _, named, Recalling.run_pure_bind_map first⟩
  exact ⟨_, pinned, rfl, Recall.absent_record unmarked rest⟩

/-- A record with a settled field more is written alike whether the field is pinned or not. -/
theorem Encoding.writeRecord_unpinned {context : Context} {write : BodyWriter} {record : Record}
    {name : String} {value : Value} {pinned : Option TypeTag}
    (settled : Field.IsSettled context record.className ⟨name, value, pinned⟩) :
    writeRecord context write (record.append name value none)
      = writeRecord context write (record.append name value pinned) := by
  have notTransient : value.isTransient = false := (Bool.or_eq_false_iff.mp settled.kept).1
  -- the last field is written under either pin, and as the last one
  have keeps (pin : Option TypeTag) (kept : isOmitted ⟨name, value, pin⟩ = false) :
      recordMembers context (record.append name value pin) = recordMembers context record
        ++ [Member.ofField context record.className ⟨name, value, pin⟩] := by
    have last : [(⟨name, value, pin⟩ : Field)].filter (!isOmitted ·) = [⟨name, value, pin⟩] :=
      List.filter_cons_of_pos (by rw [kept]; rfl)
    rw [recordMembers, Record.append]
    show ((record.fields ++ _).filter _).map _ = _
    rw [List.filter_append, last, List.map_append]
    rfl
  have unpinned : isOmitted ⟨name, value, none⟩ = false := by
    rw [isOmitted, notTransient]
    rfl
  rw [writeRecord_eq, writeRecord_eq, keeps none unpinned, keeps pinned settled.kept,
    ← settled.unpinned]
  rfl

/-- What marks an object is no record. -/
theorem Repeatable.marker (tag : TypeTag) (className : String) :
    Repeatable (tag, .string className) := by
  have holdsNone : heldRecord (tag, .string className) = none := by
    cases tag <;> rfl
  constructor
  · exact fun record held => by cases holdsNone.symm.trans held
  · exact fun record held => by cases holdsNone.symm.trans held

/-- The field that marks an object has no links. -/
theorem Encoding.linkTargets_markedRecord {context : Context} {className : String} {record : Record}
    (unmarked : record.contains Record.serializableClassField = false) :
    ((markedRecord className record).written context).flatMap linkTargets
      = (record.written context).flatMap linkTargets := by
  have kept : [(⟨Record.serializableClassField, .string className, none⟩ : Field)].filter
      (!Encoding.isOmitted ·) = [⟨Record.serializableClassField, .string className, none⟩] := rfl
  -- under whatever tag the schema has for it, the mark is a text, and a text holds no link
  have marker : (writtenField context record.className
      ⟨Record.serializableClassField, .string className, none⟩).flatMap linkTargets = [] := by
    rw [writtenField]
    rcases inSlot_cases (.string className) (Encoding.fieldTag
      ⟨Record.serializableClassField, .string className, none⟩
      (pinnedTag context record.className Record.serializableClassField)) with same | ⟨chosen, same⟩
    · rw [same]
      rfl
    · rw [same]
      cases chosen <;> rfl
  rw [Record.written_eq, writtenFields_eq, Record.written_eq, writtenFields_eq, markedRecord,
    Record.className_set, Record.fields_set unmarked, List.filter_append, List.flatMap_append,
    List.flatMap_append, kept, List.flatMap_singleton, marker, List.append_nil]

namespace Rewrites

variable {context : Context} {write : BodyWriter} {remember : BodyRecall}
  (rewrites : Rewrites context write remember) {start : Nat} {earlier calls : List LinkTarget}
  {bytes : List UInt8} {linked : Option TypeTag}
include rewrites

/-- An embedded record that bears no mark comes back as one, marked as embedded, and is written
again as the same bytes. -/
theorem embedded {record : Record}
    (repeatable : ∀ w ∈ (Value.embedded record).written context .embedded linked, Repeatable w)
    (run : Encoding.writeRecord context write record start earlier = ⟨bytes, calls, .ok ()⟩) :
    Yields context (Recall.embedded context remember record)
      (((Value.embedded record).written context .embedded linked).flatMap linkTargets) earlier
      (earlier ++ calls) fun value => ∃ made, value = .embedded made ∧ made.isEmbedded = true ∧
        Encoder.Writes (Encoding.writeRecord context write made) start bytes := by
  have self := repeatable _ (Value.mem_written _ _ _)
  have inside (w : TypeTag × Value) (there : w ∈ record.written context) : Repeatable w :=
    repeatable w (List.mem_cons_of_mem _ there)
  intro value recalled asked embeds settles
  obtain ⟨made, mid, run', embed⟩ := Recalling.run_bind_eq_some.mp embeds
  obtain ⟨rfl, rfl, -, -, again⟩ :=
    rewrites.record (self.classed record rfl) inside run made mid asked run' settles
  -- no field of the name for the mark came back, so the record is not taken for an object
  have absent := Recall.absent_record (self.unmarked record rfl) run'
  rw [Recall.embed_of_unmarked fun field there named => absurd named (absent field there)] at embed
  cases embed
  exact ⟨rfl, rfl, _, rfl, rfl, again⟩

/-- An object comes back as the object that was stored, and is written again as the same bytes.
What is written of it is its record with the mark behind the fields; the reader takes the mark off,
an honest factory hands the rest back as it is, and the writer puts the mark on again. -/
theorem serializable (honest : ∀ registry, context.registry = some registry → registry.IsHonest)
    {className : String} {record : Record}
    (repeatable : ∀ w ∈ (Value.serializable className record).written context .embedded linked,
      Repeatable w)
    (run : Encoding.writeRecord context write (Encoding.markedRecord className record) start earlier
      = ⟨bytes, calls, .ok ()⟩) :
    Yields context (Recall.embedded context remember (Encoding.markedRecord className record))
      (((Value.serializable className record).written context .embedded linked).flatMap linkTargets)
      earlier (earlier ++ calls) fun value => ∃ made, value = .serializable className made ∧
        Encoder.Writes (Encoding.writeRecord context write (Encoding.markedRecord className made))
          start bytes := by
  have self := repeatable _ (Value.mem_written _ _ _)
  have unmarked := self.unmarked record rfl
  have classed : (Encoding.markedRecord className record).className ≠ some "" := by
    rw [Encoding.markedRecord, Record.className_set]
    exact self.classed record rfl
  -- what is written of the marked record is what is written of the record, and the mark
  have inside (w : TypeTag × Value)
      (there : w ∈ (Encoding.markedRecord className record).written context) : Repeatable w := by
    rcases Encoding.mem_written_markedRecord there with before | ⟨tag, rfl⟩
    · exact repeatable w (List.mem_cons_of_mem _ before)
    · exact Repeatable.marker tag className
  intro value recalled asked embeds settles
  obtain ⟨made, mid, run', answered⟩ := Recalling.run_bind_eq_some.mp embeds
  have settles : Settles context ((record.written context).flatMap linkTargets) earlier asked :=
    settles
  -- the mark is a text and holds no link, so the links are those of the record
  rw [← Encoding.linkTargets_markedRecord unmarked] at settles
  obtain ⟨rfl, rfl, sameClass, settled, again⟩ :=
    rewrites.record classed inside run made mid asked run' settles
  obtain ⟨rest, pinned, rfl, absent⟩ := rewrites.recalled_markedRecord unmarked run'
  obtain ⟨object, rfl⟩ := Recalling.answer_eq_some.mp answered
  -- an honest factory gives back the name and the record that it was given
  obtain rfl := Recall.eq_of_embed_append honest absent object
  refine ⟨rfl, rfl, rest, rfl, ?_⟩
  -- writing it again puts the mark back where it was, behind the other fields
  have unmarked' : rest.contains Record.serializableClassField = false :=
    (Record.contains_eq_false_iff rest _).mpr absent
  -- the mark came back pinned to its tag; pinned or not, it is written alike
  have pin : Field.IsSettled context rest.className
      ⟨Record.serializableClassField, .string className, pinned⟩ := by
    have sameClass : rest.className = (Encoding.markedRecord className record).className :=
      sameClass
    rw [sameClass]
    exact settled _ (List.mem_append_right _ List.mem_cons_self)
  have marked : Encoding.markedRecord className rest
      = rest.append Record.serializableClassField (.string className) none := by
    rw [Encoding.markedRecord, Record.set, unmarked']
    rfl
  rw [marked, Encoding.writeRecord_unpinned pin]
  exact again

end Rewrites

/-! ## Level by level -/

/-- One level more of containers, given that the bodies inside them are written again. -/
theorem rewrites_bodyWith {context : Context} {offset : Int64}
    (fixed : context.options.zone = Zone.fixed offset)
    (honest : ∀ registry, context.registry = some registry → registry.IsHonest)
    {inner : Except CodecError BodyWriter} {remember : Option BodyRecall}
    (deeper : ∀ write, inner = .ok write →
      ∃ inside, remember = some inside ∧ Rewrites context write inside) :
    Rewrites context (Encoding.writeBodyWith context inner) (Recall.bodyWith context remember) := by
  constructor
  · intro field tag linked value start earlier calls bytes run repeatable
    have below (w : TypeTag × Value) (there : w ∈ (value.written context tag linked).tail) :
        Repeatable w := repeatable w (List.mem_of_mem_tail there)
    cases WrittenBody.of_eq_ok run with
    | scalar flat written =>
      rw [Value.written_of_scalar written, Recall.bodyWith_flat flat, List.flatMap_singleton]
      refine (Yields.scalar fixed honest written).mono fun made fact => ?_
      rw [Encoding.writeBodyWith_flat flat]
      exact fact
    | embedded inside written =>
      subst inside
      obtain ⟨inner, rfl, rewrites⟩ := deeper _ rfl
      refine (rewrites.embedded repeatable written).mono ?_
      rintro value ⟨made, rfl, owned, again⟩
      exact ⟨Value.naturalTag_of_isEmbedded owned, again⟩
    | serializable inside written =>
      subst inside
      obtain ⟨inner, rfl, rewrites⟩ := deeper _ rfl
      refine (rewrites.serializable honest repeatable written).mono ?_
      rintro value ⟨made, rfl, again⟩
      exact ⟨rfl, again⟩
    | sequence sort elements inside written =>
      subst inside
      obtain ⟨inner, rfl, rewrites⟩ := deeper _ rfl
      -- a list or set is no link, so all that is asked for is asked for by its elements
      have unlinked : linkTargets (tag, value) = [] := by
        rcases TypeTag.isSequence_iff.mp sort with rfl | rfl <;> rfl
      rw [Value.written_sequence elements] at below ⊢
      rw [Recall.bodyWith_sequence sort elements, List.flatMap_cons, unlinked, List.nil_append]
      refine (rewrites.items below written).map fun made again =>
        ⟨TypeTag.naturalTag_sequence sort made, ?_⟩
      rw [Encoding.writeBodyWith_sequence sort (TypeTag.items?_sequence tag made)]
      exact again
    | map inside written =>
      subst inside
      obtain ⟨inner, rfl, rewrites⟩ := deeper _ rfl
      exact (rewrites.members below written).map fun made again => ⟨rfl, again⟩
  · intro tag linked text made earlier last run
    have flat : Recall.bodyWith context remember tag linked (.string text)
        = Recall.scalar context tag (.string text) := by
      cases tag <;> rfl
    rw [flat] at run
    exact Recall.scalar_text run

end DocumentCodec
