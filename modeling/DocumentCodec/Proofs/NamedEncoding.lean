import DocumentCodec.Proofs.Members
import DocumentCodec.Proofs.RoundTrip
import DocumentCodec.Proofs.SchemaGrowth
import DocumentCodec.Proofs.Unbound
/-!
# Encodings with a schema and without

A schema shortens an encoding: a field that it binds is headed by an id and not by its name, and
where it pins the type the slot holds no tag.  If what the schema declares is what the fields say of
themselves anyway, nothing else changes: read under the schema, both encodings give the same record,
or neither can be read.

The bytes have nothing in common, so they are not compared.  Each encoding is read back as what is
recalled of the record, and what is recalled looks at the schema in three places only: the tag of a
field, the tag of an element, and whether the name of a field is written.  The two tags agree
because the record conforms.  A name that is written may be too long for a reader, but not if a body
stands behind it, for then no slot could have pointed there.
-/

namespace DocumentCodec

/-! ## Records that conform to a schema

A record conforms if what the schema prescribes is what its fields say by themselves.  A field that
says nothing is given the tag of its kind, and that has to be the declared one. -/

/-- The type that a field asks to be stored under: the one it is pinned to, else the one of its
value's kind. -/
def Field.ownTag (field : Field) : Option TypeTag :=
  field.pinned.filter (·.isConcrete) <|> field.value.naturalTag

/-- Each element of a list or set is of the kind that is declared for them, if one is. -/
def Value.Infers (linked : Option TypeTag) (value : Value) : Prop :=
  ∀ items ∈ value.items?, ∀ tag ∈ linked.filter (·.isConcrete), ∀ item ∈ items,
    item.isNull = false → item.isTransient = false → item.naturalTag = some tag

/-- What the schema declares of a field's type, the field says of itself. -/
structure Field.Conforms (context : Context) (className : Option String) (field : Field) : Prop where
  typed : field.value.isNull = false →
    ∀ tag ∈ pinnedTag context className field.name, field.ownTag = some tag
  linked : field.value.Infers (linkedTag context className field.name)

/-- The name of a field that has no body can be read, where the schema makes it unnecessary to
write it. -/
def Field.IsSpelled (context : Context) (className : Option String) (field : Field) : Prop :=
  field.value.isNull = true → (Encoding.property? context className field.name).isSome = true →
    (Utf8.encode field.name).length < 2 ^ 31

instance (linked : Option TypeTag) (value : Value) : Decidable (value.Infers linked) :=
  inferInstanceAs (Decidable (∀ items ∈ value.items?, ∀ tag ∈ linked.filter (·.isConcrete),
    ∀ item ∈ items, item.isNull = false → item.isTransient = false →
      item.naturalTag = some tag))

instance (context : Context) (className : Option String) (field : Field) :
    Decidable (field.Conforms context className) :=
  decidable_of_iff (_ ∧ _) ⟨fun both => ⟨both.1, both.2⟩, fun conforms =>
    ⟨conforms.typed, conforms.linked⟩⟩

instance (context : Context) (className : Option String) (field : Field) :
    Decidable (field.IsSpelled context className) :=
  inferInstanceAs (Decidable (_ → _ → _))

namespace Record

/-- At every level each field that is written conforms. -/
def IsConforming (context : Context) (record : Record) : Prop :=
  ∀ level ∈ record.levels context, ∀ field ∈ level.fields, Encoding.isOmitted field = false →
    field.Conforms context level.className

/-- At every level each field that is written is spelled. -/
def IsSpelled (context : Context) (record : Record) : Prop :=
  ∀ level ∈ record.levels context, ∀ field ∈ level.fields, Encoding.isOmitted field = false →
    field.IsSpelled context level.className

instance (context : Context) (record : Record) : Decidable (record.IsConforming context) :=
  inferInstanceAs (Decidable (∀ level ∈ record.levels context, ∀ field ∈ level.fields, _ → _))

instance (context : Context) (record : Record) : Decidable (record.IsSpelled context) :=
  inferInstanceAs (Decidable (∀ level ∈ record.levels context, ∀ field ∈ level.fields, _ → _))

end Record

/-- A field conforms and is spelled. -/
structure Field.Fits (context : Context) (className : Option String) (field : Field) : Prop where
  conforms : field.Conforms context className
  spelled : field.IsSpelled context className

/-- If a record is written as part of another, its fields fit. -/
def Matched (context : Context) (w : TypeTag × Value) : Prop :=
  ∀ held, heldRecord w = some held → ∀ field ∈ held.fields, Encoding.isOmitted field = false →
    field.Fits context held.className

/-! ## Where the schema is looked at

Two of the three places are the tags, and those agree for a record that conforms.  The third is the
heading, and it is where the two encodings differ. -/

/-- A declared type that the field asks for anyway changes nothing. -/
theorem Encoding.fieldTag_own {field : Field} {declared : Option TypeTag}
    (own : ∀ tag, declared = some tag → field.ownTag = some tag) :
    fieldTag field declared = fieldTag field none := by
  cases declared with
  | none => rfl
  | some tag =>
    have asked := own tag rfl
    rw [Field.ownTag] at asked
    unfold fieldTag
    cases pins : field.pinned.filter (·.isConcrete) with
    | some pinned =>
      -- the tag that is declared is the one pinned, so there is no conflict
      rw [pins] at asked
      cases asked
      exact if_pos rfl
    | none =>
      rw [pins] at asked
      -- or the one of its kind, which is what stands without a declaration
      have natural : field.value.naturalTag = some tag := asked
      rw [natural]

/-- Nor does one that the element is of. -/
theorem itemTag_own {linked : Option TypeTag} {item : Value}
    (own : ∀ tag, linked.filter (·.isConcrete) = some tag → item.naturalTag = some tag) :
    itemTag none item = itemTag linked item := by
  cases declared : linked.filter (·.isConcrete) with
  | none =>
    rw [itemTag, itemTag, declared]
    rfl
  | some tag =>
    rw [itemTag_natural (own tag declared), itemTag, declared]
    rfl

/-- A name that can be read may be written or not. -/
theorem Recall.heading_unbound {context : Context} {className : Option String} {name : String}
    (spelled : (Encoding.property? context className name).isSome = true →
      (Utf8.encode name).length < 2 ^ 31) :
    heading context.unbound className name = heading context className name := by
  rw [heading, heading, Encoding.property?_unbound]
  cases known : Encoding.property? context className name with
  | none => rfl
  | some property =>
    rw [known] at spelled
    rw [length, if_pos (spelled rfl)]
    rfl

/-- A name that is written stands whole in its label. -/
theorem Member.name_le_label (context : Context) (className : Option String) (field : Field) :
    (Utf8.encode field.name).length ≤ (ofField context.unbound className field).label.length := by
  rw [ofField, Encoding.property?_unbound, List.length_append]
  exact Nat.le_add_left _ _

/-! ## Bodies

Two writers and what is recalled of either: under one tag the same is recalled, and the tag is one,
except that a text may stand under any tag that takes it. -/

/-- A writer with the schema and a writer without, and what is recalled at either: a value that
both can write is written under one tag and recalled alike.  The tag of a string need not be known
to be the same, because there is only one for it. -/
structure Unbinds (context : Context) (write write' : BodyWriter) (remember remember' : BodyRecall) :
    Prop where
  alike : ∀ {field : String} {tag tag' : TypeTag} {linked : Option TypeTag} {value : Value}
    {start start' : Nat} {earlier earlier' calls calls' : List LinkTarget} {bytes bytes' : List UInt8},
    write field tag linked value start earlier = ⟨bytes, calls, .ok ()⟩ →
    write' field tag' none value start' earlier' = ⟨bytes', calls', .ok ()⟩ →
    (tag' = tag ∨ ∃ text, value = .string text) → value.Infers linked →
    (∀ w ∈ value.written context tag linked, Matched context w) →
    tag' = tag ∧ remember' tag none value = remember tag linked value

/-- Without a declared type there is nothing to conform to. -/
theorem Value.infers_none (value : Value) : value.Infers none :=
  fun _ _ _ declared => by cases declared

namespace Unbinds

variable {context : Context} {write write' : BodyWriter} {remember remember' : BodyRecall}
  (unbinds : Unbinds context write write' remember remember') {start start' : Nat}
  {earlier earlier' calls calls' : List LinkTarget} {bytes bytes' : List UInt8}
include unbinds

/-! ## Lists and sets

The schema may declare a type for the elements, and that is the own type of each of them. -/

/-- An element is recalled alike by name and by id.  A declared type of elements that both encodings
have survived is the tag of the element's own kind. -/
theorem item {field : String} {linked : Option TypeTag} {item : Value}
    (own : item.isNull = false → ∀ tag, linked.filter (·.isConcrete) = some tag →
      item.naturalTag = some tag)
    (matched : ∀ w ∈ writtenItem context linked item, Matched context w)
    (run : Encoding.writeItem write field (linked.filter (·.isConcrete)) item start earlier
      = ⟨bytes, calls, .ok ()⟩)
    (run' : Encoding.writeItem write' field none item start' earlier' = ⟨bytes', calls', .ok ()⟩) :
    Recall.item remember' none item = Recall.item remember linked item := by
  rw [Recall.item, Recall.item]
  cases WrittenItem.of_eq_ok run with
  | null null => rw [inSlot_of_null null, inSlot_of_null null]
  | @body chosen _ _ notNull typed written =>
    cases WrittenItem.of_eq_ok run' with
    | null null => cases notNull.symm.trans null
    | @body chosen' _ _ _ typed' written' =>
      have same := itemTag_own (own notNull)
      have choice : itemTag linked item = .ok chosen := itemTag_eq_ok typed
      have choice' : itemTag none item = .ok chosen' := itemTag_eq_ok typed'
      -- the declared type was the element's own, so both wrote it under the same tag
      have agree : chosen' = chosen := by
        rw [choice, choice'] at same
        exact Except.ok.inj same
      rw [writtenItem, inSlot_of_ok notNull choice] at matched
      rw [same, inSlot_of_ok notNull choice, inSlot_of_ok notNull choice]
      exact (unbinds.alike written written' (Or.inl agree) item.infers_none matched).2

/-- So are all elements of a list. -/
theorem items {field : String} {linked : Option TypeTag} {items : List Value}
    (own : ∀ tag, linked.filter (·.isConcrete) = some tag → ∀ item ∈ items, item.isNull = false →
      item.isTransient = false → item.naturalTag = some tag)
    (matched : ∀ w ∈ writtenItems context linked items, Matched context w)
    (run : Encoding.writeItems write field linked items start earlier = ⟨bytes, calls, .ok ()⟩)
    (run' : Encoding.writeItems write' field none items start' earlier'
      = ⟨bytes', calls', .ok ()⟩) :
    Recall.items remember' none items = Recall.items remember linked items := by
  have each : ∀ item ∈ items.filter (!·.isTransient),
      Recall.item remember' none item = Recall.item remember linked item := by
    intro item there
    obtain ⟨inside, kept⟩ := List.mem_filter.mp there
    rw [writtenItems_eq] at matched
    obtain ⟨_, elements, -⟩ := Encoding.writeItems_eq_ok run
    obtain ⟨_, elements', -⟩ := Encoding.writeItems_eq_ok run'
    -- both encodings have written this element, each at a place of its own
    obtain ⟨_, _, _, _, here⟩ := Encoder.of_forM_eq_ok elements item there
    obtain ⟨_, _, _, _, here'⟩ := Encoder.of_forM_eq_ok elements' item there
    refine unbinds.item (fun notNull tag declared => ?_) (fun w held => ?_) here here'
    · exact own tag declared item inside notNull (Bool.not_eq_true' _ |>.mp kept)
    · exact matched w (List.mem_flatMap.mpr ⟨item, there, held⟩)
  rw [Recall.items, Recall.items]
  simp only [Recalling.mapM_congr each]

/-! ## Tables

The members of a map stand under the tags of their kinds in any case; those of a record under what
the schema prescribes. -/

/-- A value that has a body in both tables, or in neither. -/
theorem slot {field : String} {value : Value} {linked : Option TypeTag}
    {tag tag' : Except Unsupported TypeTag} {filling filling' : Option Filling}
    (same : value.isNull = false → tag' = tag ∨ ∃ text, value = .string text)
    (infers : value.Infers linked)
    (matched : ∀ w ∈ inSlot value tag [] (fun tag => value.written context tag linked),
      Matched context w)
    (first : SlotBody value tag (fun tag => write field tag linked value) start earlier filling bytes
      calls)
    (second : SlotBody value tag' (fun tag => write' field tag none value) start' earlier' filling'
      bytes' calls') :
    Recall.slot (fun tag => remember' tag none value) value tag'
      = Recall.slot (fun tag => remember tag linked value) value tag := by
  rw [Recall.slot, Recall.slot]
  cases first with
  | null null => rw [inSlot_of_null null, inSlot_of_null null]
  | body notNull choice written reached =>
    cases second with
    | null null => cases notNull.symm.trans null
    | body _ choice' written' reached' =>
      subst choice choice'
      rw [inSlot_of_ok notNull rfl] at matched
      have agree := (same notNull).imp_left Except.ok.inj
      obtain ⟨rfl, alike⟩ := unbinds.alike written written' agree infers matched
      rw [inSlot_of_ok notNull rfl, inSlot_of_ok notNull rfl, alike]

/-- So are the members of a map, whose tags are those of their own kinds in any case. -/
theorem map {field : String} {pairs : List (String × Value)}
    (matched : ∀ w ∈ writtenMembers context pairs, Matched context w)
    (run : Encoding.writeMap write field pairs start earlier = ⟨bytes, calls, .ok ()⟩)
    (run' : Encoding.writeMap write' field pairs start' earlier' = ⟨bytes', calls', .ok ()⟩) :
    Recall.members remember' pairs = Recall.members remember pairs := by
  have each : ∀ pair ∈ pairs.filter (!·.2.isTransient),
      Recall.member remember' pair = Recall.member remember pair := by
    intro pair there
    -- both tables have a slot for each member, filled from its value
    have member : Member.ofPair field pair ∈ Encoding.mapMembers field pairs :=
      List.mem_map_of_mem there
    rw [Encoding.writeMap_eq] at run run'
    rw [writtenMembers_eq] at matched
    obtain ⟨_, _, bodies, -⟩ := writeTable_eq_ok run
    obtain ⟨_, _, bodies', -⟩ := writeTable_eq_ok run'
    obtain ⟨_, _, _, _, _, -, first⟩ := Member.slotBody_of_mem bodies _ member
    obtain ⟨_, _, _, _, _, -, second⟩ := Member.slotBody_of_mem bodies' _ member
    have slot : Recall.slot _ pair.2 (memberTag pair.2) = _ :=
      unbinds.slot (fun _ => Or.inl rfl) pair.2.infers_none
        (fun w held => matched w (List.mem_flatMap.mpr ⟨pair, there, held⟩)) first second
    rw [Recall.member, Recall.member]
    simp only [slot]
  rw [Recall.members, Recall.members]
  simp only [Recalling.mapM_congr each]

/-! ## Records -/

/-- A field with its name written and without.  A name in front of a body that a slot points at is
not too long for a reader. -/
theorem field {className : Option String} {field : Field} {filling filling' : Option Filling}
    (fits : field.Fits context className ∨ ∃ text, field.value = .string text)
    (matched : ∀ w ∈ writtenField context className field, Matched context w)
    (first : SlotBody field.value
      (Encoding.fieldTag field (pinnedTag context className field.name))
      (fun tag => write field.name tag (linkedTag context className field.name) field.value)
      start earlier filling bytes calls)
    (second : SlotBody field.value (Encoding.fieldTag field none)
      (fun tag => write' field.name tag none field.value) start' earlier' filling' bytes' calls')
    (behind : (Utf8.encode field.name).length ≤ start') :
    Recall.field context.unbound remember' className field
      = Recall.field context remember className field := by
  have spelled (bound : (Encoding.property? context className field.name).isSome = true) :
      (Utf8.encode field.name).length < 2 ^ 31 := by
    -- no slot points behind the name of a field that is null, so that it is short must be given
    cases second with
    | null null =>
      rcases fits with fits | ⟨text, string⟩
      · exact fits.spelled null bound
      · rw [string] at null
        cases null
    | body _ _ _ reached =>
      rw [Slot.maxPointer] at reached
      omega
  -- the type that the schema pins is the one that the value has of its own
  have same (notNull : field.value.isNull = false) : Encoding.fieldTag field none
      = Encoding.fieldTag field (pinnedTag context className field.name) ∨
        ∃ text, field.value = .string text :=
    fits.imp_left fun fits => (Encoding.fieldTag_own (fits.conforms.typed notNull)).symm
  have infers : field.value.Infers (linkedTag context className field.name) := by
    rcases fits with fits | ⟨text, string⟩
    · exact fits.conforms.linked
    · rw [string]
      exact fun items none => by cases none
  have slot := unbinds.slot same infers matched first second
  rw [Recall.field, Recall.field, Recall.heading_unbound spelled, pinnedTag_unbound,
    linkedTag_unbound]
  simp only [slot]

/-- Each field of a record fits, but for the one that marks an object, which holds a string. -/
theorem record {record : Record}
    (fits : ∀ field ∈ record.fields, Encoding.isOmitted field = false →
      field.Fits context record.className ∨ ∃ text, field.value = .string text)
    (matched : ∀ w ∈ record.written context, Matched context w)
    (run : Encoding.writeRecord context write record start earlier = ⟨bytes, calls, .ok ()⟩)
    (run' : Encoding.writeRecord context.unbound write' record start' earlier'
      = ⟨bytes', calls', .ok ()⟩) :
    Recall.record context.unbound remember' record = Recall.record context remember record := by
  have each : ∀ field ∈ record.fields.filter (!Encoding.isOmitted ·),
      Recall.field context.unbound remember' record.className field
        = Recall.field context remember record.className field := by
    intro field there
    obtain ⟨inside, kept⟩ := List.mem_filter.mp there
    have member (seen : Context) :
        Member.ofField seen record.className field ∈ Encoding.recordMembers seen record :=
      List.mem_map_of_mem there
    rw [Encoding.writeRecord_eq] at run run'
    rw [record.written_eq, writtenFields_eq] at matched
    obtain ⟨_, _, bodies, -⟩ := writeTable_eq_ok run
    obtain ⟨fillings, _, bodies', -⟩ := writeTable_eq_ok run'
    -- the same field has a body in either encoding, behind a header that spells its name
    obtain ⟨_, _, _, _, _, -, first⟩ := Member.slotBody_of_mem bodies _ (member context)
    obtain ⟨_, _, _, _, _, behind, second⟩ :=
      Member.slotBody_of_mem bodies' _ (member context.unbound)
    have header := Member.label_le_encodeAll write' fillings (member context.unbound)
    have label := Member.name_le_label context record.className field
    simp only [Member.field_ofField, Member.value_ofField, Member.tag_ofField,
      Member.linked_ofField, pinnedTag_unbound, linkedTag_unbound] at first second
    refine unbinds.field (fits field inside ?_) (fun w held => ?_) first second (by omega)
    · exact Bool.not_eq_true' _ |>.mp kept
    · exact matched w (List.mem_flatMap.mpr ⟨field, there, held⟩)
  rw [Recall.record, Recall.record, Recalling.mapM_congr each]

/-- So is an embedded record, with a schema binding its fields or without. -/
theorem embedded {record : Record} {linked : Option TypeTag}
    (matched : ∀ w ∈ (Value.embedded record).written context .embedded linked, Matched context w)
    (run : Encoding.writeRecord context write record start earlier = ⟨bytes, calls, .ok ()⟩)
    (run' : Encoding.writeRecord context.unbound write' record start' earlier'
      = ⟨bytes', calls', .ok ()⟩) :
    Recall.embedded context.unbound remember' record = Recall.embedded context remember record := by
  have self := matched _ (Value.mem_written _ _ _) record rfl
  have same := unbinds.record (fun field there kept => Or.inl (self field there kept))
    (fun w inside => matched w (List.mem_cons_of_mem _ inside)) run run'
  rw [Recall.embedded, Recall.embedded, same]
  rfl

/-- So is the record that stands for an object.  It has a field more, the one for the mark. -/
theorem serializable {className : String} {record : Record} {linked : Option TypeTag}
    (matched : ∀ w ∈ (Value.serializable className record).written context .embedded linked,
      Matched context w)
    (run : Encoding.writeRecord context write (Encoding.markedRecord className record) start earlier
      = ⟨bytes, calls, .ok ()⟩)
    (run' : Encoding.writeRecord context.unbound write' (Encoding.markedRecord className record)
      start' earlier' = ⟨bytes', calls', .ok ()⟩) :
    Recall.embedded context.unbound remember' (Encoding.markedRecord className record)
      = Recall.embedded context remember (Encoding.markedRecord className record) := by
  have self := matched _ (Value.mem_written _ _ _) record rfl
  have same := unbinds.record (fun field there kept => ?_) (fun w inside => ?_) run run'
  · rw [Recall.embedded, Recall.embedded, same]
    rfl
  · -- whatever the schema declares of the field that marks an object, it was written as a string
    rcases Record.mem_fields_set there with before | ⟨-, marks⟩
    · rw [Encoding.markedRecord, Record.className_set]
      exact Or.inl (self field before kept)
    · exact Or.inr ⟨className, marks⟩
  · rcases Encoding.mem_written_markedRecord inside with before | ⟨tag, rfl⟩
    · exact matched w (List.mem_cons_of_mem _ before)
    · -- and it is no record
      intro held holds
      cases tag <;> cases holds

end Unbinds

/-! ## Level by level -/

/-- A string is written under its own tag only. -/
theorem Encoding.tag_of_string {context : Context} {inner : Except CodecError BodyWriter}
    {field text : String} {tag : TypeTag} {linked : Option TypeTag} {start : Nat}
    {earlier calls : List LinkTarget} {bytes : List UInt8}
    (run : writeBodyWith context inner field tag linked (.string text) start earlier
      = ⟨bytes, calls, .ok ()⟩) : tag = .string := by
  cases tag with
  | string => rfl
  | _ => cases run

/-- One level more of containers, given that the bodies inside them are recalled alike. -/
theorem unbinds_bodyWith {context : Context} {inner inner' : Except CodecError BodyWriter}
    {remember remember' : Option BodyRecall}
    (deeper : ∀ write write', inner = .ok write → inner' = .ok write' →
      ∃ inside inside', remember = some inside ∧ remember' = some inside' ∧
        Unbinds context write write' inside inside') :
    Unbinds context (Encoding.writeBodyWith context inner)
      (Encoding.writeBodyWith context.unbound inner') (Recall.bodyWith context remember)
      (Recall.bodyWith context.unbound remember') := by
  constructor
  intro field tag tag' linked value start start' earlier earlier' calls calls' bytes bytes'
    run run' agree infers matched
  -- only a text may be tagged otherwise, and it is written under no other tag than its own
  have same : tag' = tag := by
    rcases agree with same | ⟨text, rfl⟩
    · exact same
    · rw [Encoding.tag_of_string run, Encoding.tag_of_string run']
  subst same
  refine ⟨rfl, ?_⟩
  have below (w : TypeTag × Value) (there : w ∈ (value.written context tag' linked).tail) :
      Matched context w := matched w (List.mem_of_mem_tail there)
  -- the second body was written too, so there is a level for it where there is one for the first
  have container (sort : tag'.isContainer = true) : ∃ write', inner' = .ok write' :=
    (WrittenBody.of_eq_ok run').inner_eq_ok sort
  cases WrittenBody.of_eq_ok run with
  | scalar flat written =>
    rw [Recall.bodyWith_flat flat, Recall.bodyWith_flat flat]
    rfl
  | embedded inside written =>
    obtain ⟨write', rfl⟩ := container rfl
    obtain ⟨_, _, rfl, rfl, unbinds⟩ := deeper _ _ inside rfl
    exact unbinds.embedded matched written run'
  | serializable inside written =>
    obtain ⟨write', rfl⟩ := container rfl
    obtain ⟨_, _, rfl, rfl, unbinds⟩ := deeper _ _ inside rfl
    exact unbinds.serializable matched written run'
  | sequence sort elements inside written =>
    obtain ⟨write', rfl⟩ := container (TypeTag.isContainer_of_sequence sort)
    obtain ⟨_, _, rfl, rfl, unbinds⟩ := deeper _ _ inside rfl
    rw [Value.written_sequence elements] at below
    rw [Encoding.writeBodyWith_sequence sort elements] at run'
    rw [Recall.bodyWith_sequence sort elements, Recall.bodyWith_sequence sort elements]
    exact congrArg (· >>= fun made => pure (tag'.sequence made))
      (unbinds.items (infers _ elements) below written run')
  | map inside written =>
    obtain ⟨write', rfl⟩ := container rfl
    obtain ⟨_, _, rfl, rfl, unbinds⟩ := deeper _ _ inside rfl
    exact congrArg (· >>= fun made => pure (Value.embeddedMap made))
      (unbinds.map below written run')

/-- Every body that both encodings hold is recalled alike, however deep it nests. -/
theorem unbinds_body (context : Context) (room : Nat) :
    Unbinds context (Encoding.writeBody context room) (Encoding.writeBody context.unbound room)
      (Recall.body context room) (Recall.body context.unbound room) := by
  induction room with
  | zero => exact unbinds_bodyWith fun write write' none => by cases none
  | succ room ih =>
    refine unbinds_bodyWith fun write write' same same' => ⟨_, _, rfl, rfl, ?_⟩
    cases same
    cases same'
    exact ih

namespace Record

variable {context : Context} {record : Record} {bound byName : List UInt8}

/-- What is recalled of a record that conforms does not depend on what the schema binds, if it can
be written with and without. -/
theorem recalled_unbound (conforming : record.IsConforming context)
    (spelled : record.IsSpelled context) (run : record.encode context = .ok bound)
    (run' : record.encode context.unbound = .ok byName) :
    record.recalled context.unbound = record.recalled context := by
  obtain ⟨calls, emitted⟩ := encode_eq_ok run
  obtain ⟨calls', emitted'⟩ := encode_eq_ok run'
  have fits (level : Record) (there : level ∈ record.levels context) (field : Field)
      (inside : field ∈ level.fields) (kept : Encoding.isOmitted field = false) :
      field.Fits context level.className :=
    ⟨conforming level there field inside kept, spelled level there field inside kept⟩
  refine (unbinds_body context context.options.maxDepth).record (fun field inside kept => ?_)
    (fun w there held holds => ?_) emitted emitted'
  · exact Or.inl (fits record List.mem_cons_self field inside kept)
  · exact fits held (List.mem_of_mem_tail (mem_levels there holds))

/-- **A record that conforms to the schema is read alike from the encoding with ids and from the one
with names.**  Under the schema both are decoded to the same record, or neither can be decoded.

A name of 2 GiB and more can be written but not read, and a field without a body is the only one
that it can be written for; so the names of such fields must be shorter where the schema would spare
them. -/
theorem decode_bound_named (formed : record.isWellFormed = true)
    (built : ∀ schema, context.schema = some schema → schema.IsBuilt)
    (named : record.IsNamed context) (named' : record.IsNamed context.plain)
    (conforming : record.IsConforming context) (spelled : record.IsSpelled context)
    (run : record.encode context = .ok bound) (run' : record.encode context.plain = .ok byName)
    (small : bound.length < 2 ^ 63) (small' : byName.length < 2 ^ 63) :
    (∃ made,
      decode context bound none Record.new = .ok () ⟨⟨bound.length, bound.length⟩, made⟩ ∧
      decode context byName none Record.new = .ok () ⟨⟨byName.length, byName.length⟩, made⟩) ∨
    ((∃ e state, decode context bound none Record.new = .error e state) ∧
      ∃ e state, decode context byName none Record.new = .error e state) := by
  have unnamed : record.IsNamed context.unbound := by
    rw [IsNamed, levels, record.written_plain] at named'
    exact named'
  rw [encode_plain] at run'
  have coherent (schema : Snapshot) (known : context.schema = some schema) : schema.IsCoherent :=
    (built schema known).isCoherent
  have same := recalled_unbound conforming spelled run run'
  have first := decode_encode_cases coherent formed named run small
  have second := decode_encode_cases context.isCoherent_unbound formed unnamed run' small'
  -- both byte strings are read under the schema, and the same is recalled of the record
  rw [same, decode_unbound] at second
  rcases first with ⟨made, calls, -, recalled, decoded⟩ | ⟨nothing, failed⟩
  · rcases second with ⟨made', calls', -, recalled', decoded'⟩ | ⟨nothing', -⟩
    · rw [recalled] at recalled'
      cases recalled'
      exact Or.inl ⟨made, decoded, decoded'⟩
    · rw [recalled] at nothing'
      cases nothing'
  · rcases second with ⟨made', calls', -, recalled', -⟩ | ⟨-, failed'⟩
    · rw [nothing] at recalled'
      cases recalled'
    · exact Or.inr ⟨failed, failed'⟩

/-- One property pins the type and is shared with the class of the embedded record, whose field asks
for the type by itself; one leaves the type open, one declares it for the elements, one is of a
field that is null; and the field that embeds the record is not bound. -/
theorem decode_bound_named_of_embedded :
    let schema : Schema := Schema.empty.afterCalls [⟨"C", "n", some .long, none⟩,
      ⟨"C", "a", some .any, none⟩, ⟨"C", "l", some .embeddedList, some .byte⟩,
      ⟨"C", "z", some .string, none⟩, ⟨"D", "n", some .long, none⟩]
    let context : Context := { schema := some schema.toSnapshot }
    let inner : Record := ⟨some "D", RecordId.empty, [⟨"n", .integer 1, some .long⟩], true⟩
    let record : Record := ⟨some "C", RecordId.empty,
      [⟨"n", .long 7, none⟩, ⟨"a", .string "x", none⟩, ⟨"l", .embeddedList [.null, .byte 1], none⟩,
        ⟨"z", .null, none⟩, ⟨"e", .embedded inner, none⟩], false⟩
    let bound : List UInt8 := [1, 67, 255, 255, 255, 255, 255, 255, 255, 255, 255, 1, 0, 0, 0, 67, 254,
      255, 255, 255, 255, 255, 255, 255, 255, 1, 0, 0, 0, 68, 7, 253, 255, 255, 255, 255, 255, 255,
      255, 255, 1, 0, 0, 0, 70, 252, 255, 255, 255, 255, 255, 255, 255, 255, 1, 0, 0, 0, 0, 1, 101, 0,
      0, 0, 75, 9, 0, 7, 1, 120, 2, 23, 23, 17, 1, 1, 68, 255, 255, 255, 255, 255, 255, 255, 255, 255,
      1, 0, 0, 0, 92, 0, 1]
    let byName : List UInt8 := [1, 67, 1, 110, 0, 0, 0, 38, 3, 1, 97, 0, 0, 0, 39, 7, 1, 108, 0, 0, 0,
      41, 10, 1, 122, 0, 0, 0, 0, 0, 1, 101, 0, 0, 0, 46, 9, 0, 7, 1, 120, 2, 23, 23, 17, 1, 1, 68, 1,
      110, 0, 0, 0, 56, 3, 0, 1]
    let made : Record := ⟨some "C", RecordId.empty,
      [⟨"n", .long 7, some .long⟩, ⟨"a", .string "x", some .string⟩,
        ⟨"l", .embeddedList [.null, .byte 1], some .embeddedList⟩, ⟨"z", .null, none⟩,
        ⟨"e", .embedded ⟨some "D", RecordId.empty, [⟨"n", .long 1, some .long⟩], true⟩,
          some .embedded⟩], false⟩
    record.encode context = .ok bound ∧ record.encode context.plain = .ok byName ∧
      decode context bound none Record.new = .ok () ⟨⟨bound.length, bound.length⟩, made⟩ ∧
      decode context byName none Record.new = .ok () ⟨⟨byName.length, byName.length⟩, made⟩ := by
  intro schema context inner record bound byName made
  have built (known : Snapshot) (same : context.schema = some known) : known.IsBuilt := by
    cases same
    exact ⟨schema, Schema.Built.afterCalls _ .empty, rfl⟩
  have run : record.encode context = .ok bound := eq_ok_of_toOption (by decide +kernel)
  have run' : record.encode context.plain = .ok byName := eq_ok_of_toOption (by decide +kernel)
  have named : record.IsNamed context := by
    unfold IsNamed
    decide
  have named' : record.IsNamed context.plain := by
    unfold IsNamed
    decide
  have recalled : record.recalled context [] = some (made, []) := by
    subst made record inner context schema
    rfl
  have decoded := decode_of_recalled rfl built named run (by decide) recalled
  rcases decode_bound_named rfl built named named' (by decide) (by decide) run run' (by decide)
    (by decide) with ⟨made', first, second⟩ | ⟨⟨e, state, failed⟩, -⟩
  · rw [decoded] at first
    cases first
    exact ⟨run, run', decoded, second⟩
  · rw [decoded] at failed
    cases failed

end Record

/-! ## A name that is too long

A header without bodies may be longer than a slot can point.  So a name of two gigabytes is written
and cannot be read, unless it is a schema's and an id stands for it. -/

section LongName

variable {name : String}

/-- The schema that binds one field of class `C` and pins no type. -/
def Schema.binding (name : String) : Schema := ⟨[⟨0, name, none, none⟩], [⟨"C", name, 0⟩]⟩

/-- The record whose one field is null. -/
def Record.bodiless (name : String) : Record :=
  ⟨some "C", RecordId.empty, [⟨name, .null, none⟩], false⟩

/-- The one declaration that makes this schema is accepted, unless there is no name. -/
theorem Schema.declare_binding (named : name ≠ "") :
    Schema.empty.declare "C" name none none = .ok (0, Schema.binding name) := by
  have there : name.isEmpty = false := by simpa using named
  rw [Schema.declare, there]
  rfl

theorem Schema.ofField?_binding :
    (Schema.binding name).ofField? "C" name = some ⟨0, name, none, none⟩ := by
  simp [Schema.ofField?, Schema.binding, Schema.declaration?, Schema.byId?]

/-- A text of `n` letters takes as many bytes. -/
theorem Utf8.length_encode_replicate (n : Nat) :
    (Utf8.encode (String.ofList (List.replicate n 'a'))).length = n := by
  have size : (List.replicate n 'a').utf8Encode.size = n := by
    induction n with
    | zero => rfl
    | succ n ih =>
      rw [List.replicate_succ, List.utf8Encode_cons, ByteArray.size_append, ih, Nat.add_comm]
      rfl
  rw [Utf8.encode, Array.length_toList]
  exact size

namespace Record

variable {context : Context}

/-- A record without a body is its class name and its header. -/
theorem encode_bodiless {entry : Entry}
    (heading : ∀ write, Encoding.fieldEntry context write (some "C") ⟨name, .null, none⟩ = entry)
    (null : entry.body = none) : (bodiless name).encode context
      = .ok ([1, 67] ++ entry.label ++ Slot.encode entry.pinned none ++ [0]) := by
  have entries : ((bodiless name).fields.filter (!Encoding.isOmitted ·)).map
      (Encoding.fieldEntry context (Encoding.writeBody context context.options.maxDepth)
        (bodiless name).className) = [entry] := congrArg (fun entry => [entry]) (heading _)
  rw [encode, emission, Encoding.writeRecord, writeTable, entries, List.map_singleton, null]
  simp only [Bodies.write, Entry.encodeAll, List.append_nil]
  rfl

/-- Where the schema binds the field, its name is not written. -/
theorem encode_bodiless_bound
    (bound : Encoding.property? context (some "C") name = some ⟨0, name, none, none⟩) :
    (bodiless name).encode context
      = .ok [1, 67, 255, 255, 255, 255, 255, 255, 255, 255, 255, 1, 0, 0, 0, 0, 0, 0] := by
  have heading (write : BodyWriter) :
      Encoding.fieldEntry context write (some "C") ⟨name, .null, none⟩
        = ⟨Varint.encodeSigned (-1), false, none⟩ := by
    rw [Encoding.fieldEntry, bound]
    rfl
  exact encode_bodiless heading rfl

/-- Where it does not, the name is all that is long. -/
theorem encode_bodiless_named (free : Encoding.property? context (some "C") name = none)
    (room : (Utf8.encode name).length < 2 ^ 62) :
    ∃ bytes, (bodiless name).encode context = .ok bytes ∧ bytes.length < 2 ^ 63 := by
  have heading (write : BodyWriter) :
      Encoding.fieldEntry context write (some "C") ⟨name, .null, none⟩
        = ⟨Varint.encode (UInt64.ofNat (Utf8.encode name).length) ++ Utf8.encode name, false,
          none⟩ := by
    rw [Encoding.fieldEntry, free]
    rfl
  refine ⟨_, encode_bodiless heading rfl, ?_⟩
  -- the length of the name takes ten bytes at most, whatever it is
  have digits : (Varint.encode (UInt64.ofNat (Utf8.encode name).length)).length ≤ 10 :=
    Varint.length_encode_le (by decide) (Nat.lt_of_lt_of_le (UInt64.toNat_lt _) (by decide))
  have slot : (Slot.encode false none).length = 5 := rfl
  simp only [List.length_append, slot, List.length_cons, List.length_nil]
  omega

/-- Where the schema binds the field, all of it comes back. -/
theorem recalled_bodiless_bound
    (bound : Encoding.property? context (some "C") name = some ⟨0, name, none, none⟩) :
    (bodiless name).recalled context [] = some (bodiless name, []) := by
  have className : Recall.string "C" [] = some ("C", []) :=
    Recall.string_eq_some.mpr ⟨by decide, rfl, rfl⟩
  -- a heading by id has no name that could be too long
  have heading : Recall.heading context (some "C") name [] = some ((), []) := by
    rw [Recall.heading, bound]
    rfl
  have field (inner : BodyRecall) : Recall.field context inner (some "C") ⟨name, .null, none⟩ []
      = some (⟨name, .null, none⟩, []) := by
    rw [Recall.field, Recalling.run_bind heading]
    rfl
  rw [recalled, Recall.record]
  refine (Recalling.run_bind className).trans ?_
  exact Recalling.run_pure_bind_map
    (Recalling.run_mapM_cons.mpr ⟨_, [], [], field _, rfl, rfl⟩)

/-- A name that is too long for a reader does not come back. -/
theorem recalled_bodiless_named (free : Encoding.property? context (some "C") name = none)
    (wide : 2 ^ 31 ≤ (Utf8.encode name).length) : (bodiless name).recalled context [] = none := by
  rw [Option.eq_none_iff_forall_ne_some]
  rintro ⟨made, last⟩ run
  obtain ⟨_, _, -, run⟩ := Recalling.run_bind_eq_some.mp run
  obtain ⟨_, _, run, -⟩ := Recalling.run_bind_eq_some.mp run
  obtain ⟨_, _, _, field, -⟩ := Recalling.run_mapM_cons.mp run
  obtain ⟨_, _, heading, -⟩ := Recalling.run_bind_eq_some.mp field
  have heading : Recall.heading context (some "C") name _ = _ := heading
  rw [Recall.heading, free] at heading
  obtain ⟨_, _, counted, -⟩ := Recalling.run_bind_eq_some.mp heading
  exact absurd (Recall.length_eq_some.mp counted).1 (Nat.not_lt.mpr wide)

/-- It has one level and one field. -/
theorem eq_of_mem_bodiless {level : Record} {field : Field}
    (there : level ∈ (bodiless name).levels context) (inside : field ∈ level.fields) :
    level = bodiless name ∧ field = ⟨name, .null, none⟩ := by
  have there : level ∈ [bodiless name] := there
  obtain rfl := List.mem_singleton.mp there
  exact ⟨rfl, List.mem_singleton.mp inside⟩

theorem isNamed_bodiless (named : name ≠ "") : (bodiless name).IsNamed context := by
  intro level there field inside
  obtain ⟨-, rfl⟩ := eq_of_mem_bodiless there inside
  exact named

theorem isConforming_bodiless : (bodiless name).IsConforming context := by
  intro level there field inside _
  obtain ⟨-, rfl⟩ := eq_of_mem_bodiless there inside
  exact ⟨fun held => (by cases held), fun items none => (by cases none)⟩

/-- A name of two gigabytes takes the schema to be read at all. -/
theorem decode_bodiless (wide : 2 ^ 31 ≤ (Utf8.encode name).length)
    (room : (Utf8.encode name).length < 2 ^ 62) (named : name ≠ "") :
    let context : Context := { schema := some (Schema.binding name).toSnapshot }
    ∃ bound byName, (bodiless name).encode context = .ok bound ∧
      (bodiless name).encode context.plain = .ok byName ∧
      bound.length < 2 ^ 63 ∧ byName.length < 2 ^ 63 ∧
      (∃ state, decode context bound none Record.new = .ok () state) ∧
      ∃ e state, decode context byName none Record.new = .error e state := by
  intro context
  have coherent (schema : Snapshot) (known : context.schema = some schema) : schema.IsCoherent := by
    cases known
    exact (Schema.Built.declare .empty (Schema.declare_binding named)).isCoherent
  have bound : Encoding.property? context (some "C") name = some ⟨0, name, none, none⟩ :=
    Schema.ofField?_binding
  have free : Encoding.property? context.unbound (some "C") name = none :=
    Encoding.property?_unbound context _ _
  have run := encode_bodiless_bound bound
  obtain ⟨byName, run', small⟩ := encode_bodiless_named free room
  -- what is decoded is what is recalled: the id comes back, and the name does not
  have first := decode_encode_cases coherent rfl (isNamed_bodiless named) run (by decide)
  have second := decode_encode_cases context.isCoherent_unbound rfl (isNamed_bodiless named) run'
    small
  rw [recalled_bodiless_bound bound] at first
  rw [recalled_bodiless_named free wide, decode_unbound] at second
  refine ⟨_, byName, run, by rw [encode_plain]; exact run', by decide, small, ?_, ?_⟩
  · rcases first with ⟨_, _, -, -, decoded⟩ | ⟨nothing, -⟩
    · exact ⟨_, decoded⟩
    · cases nothing
  · rcases second with ⟨_, _, -, nothing, -⟩ | ⟨-, failed⟩
    · cases nothing
    · exact failed

/-- The one field is null, and its name is one byte longer than a reader takes: by its id in the
schema the field comes back, and by name it does not. -/
theorem decode_bound_named_of_long_name :
    let name := String.ofList (List.replicate (2 ^ 31) 'a')
    let schema : Schema := ⟨[⟨0, name, none, none⟩], [⟨"C", name, 0⟩]⟩
    let context : Context := { schema := some schema.toSnapshot }
    let record : Record := ⟨some "C", RecordId.empty, [⟨name, .null, none⟩], false⟩
    Schema.empty.declare "C" name none none = .ok (0, schema) ∧
      record.isWellFormed = true ∧ record.IsNamed context ∧ record.IsNamed context.plain ∧
      record.IsConforming context ∧
      ∃ bound byName, record.encode context = .ok bound ∧
        record.encode context.plain = .ok byName ∧
        bound.length < 2 ^ 63 ∧ byName.length < 2 ^ 63 ∧
        (∃ state, decode context bound none Record.new = .ok () state) ∧
        ∃ e state, decode context byName none Record.new = .error e state := by
  intro name schema context record
  have length : (Utf8.encode name).length = 2 ^ 31 := Utf8.length_encode_replicate (2 ^ 31)
  have wide : 2 ^ 31 ≤ (Utf8.encode name).length := Nat.le_of_eq length.symm
  have room : (Utf8.encode name).length < 2 ^ 62 := by
    rw [length]
    decide
  have named : name ≠ "" := by
    intro empty
    rw [empty] at length
    exact absurd length (by decide)
  exact ⟨Schema.declare_binding named, rfl, isNamed_bodiless named, isNamed_bodiless named,
    isConforming_bodiless, decode_bodiless wide room named⟩

end Record
end LongName
end DocumentCodec
