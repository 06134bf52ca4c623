import DocumentCodec.Proofs.Embedding.Mark
/-!
# Bodies with bodies inside, unless one is marked

What came back of a slot is of the kind of its tag, so it is written under the same tag again, and
so is all that is in it.  Nothing is pinned and nothing declared for elements where there is no
schema, so that holds for a record of any class: the empty class name comes back as none.

Everything here is given that the bodies one level deeper come back, which is `Preserving`.
-/

namespace DocumentCodec

section Bare

variable {context : Context} (bare : context.schema = none) (className : Option String)
  (field : String)
include bare

/-- Without a schema no field has a property. -/
theorem Encoding.property?_of_bare : property? context className field = none := by
  unfold property?
  rw [bare]

theorem pinnedTag_of_bare : pinnedTag context className field = none :=
  pinnedTag_of_none (Encoding.property?_of_bare bare className field)

theorem linkedTag_of_bare : linkedTag context className field = none :=
  linkedTag_of_none (Encoding.property?_of_bare bare className field)

end Bare

/-! ## What comes back of each part

The same is said of a slot, of an element, of a member and of a field: what comes back is of the
same kind, and everything written for it is what was written before. -/

/-- What is written for a list comes back if it does for each of its elements. -/
theorem ReadBackAs.flatMap {α β : Type} {as : List α} {bs : List β}
    {inside : α → List (TypeTag × Value)} {inside' : β → List (TypeTag × Value)}
    (back : List.Forall₂ (fun a b => List.Forall₂ ReadBackAs (inside a) (inside' b)) as bs) :
    List.Forall₂ ReadBackAs (as.flatMap inside) (bs.flatMap inside') :=
  List.rel_flatMap back fun _ _ same => same

/-- A filter that lets each of the things pass lets all of them. -/
theorem filter_of_forall₂ {α β : Type} {back : α → β → Prop} {keeps : β → Bool} {as : List α}
    {bs : List β} (all : List.Forall₂ back as bs) (each : ∀ a b, back a b → keeps b = true) :
    bs.filter keeps = bs := by
  induction all with
  | nil => rfl
  | cons first _ ih => rw [List.filter_cons_of_pos (each _ _ first), ih]

/-- What is kept of each thing is kept of all of them. -/
theorem map_of_forall₂ {α β γ : Type} {back : α → β → Prop} {f : α → γ} {g : β → γ} {as : List α}
    {bs : List β} (all : List.Forall₂ back as bs) (each : ∀ a b, back a b → f a = g b) :
    as.map f = bs.map g := by
  rw [← List.forall₂_eq_eq_eq, List.forall₂_map_left_iff, List.forall₂_map_right_iff]
  exact all.imp each

/-- What came back of a slot: nothing of a null value, and else a value under the tag that was
chosen. -/
inductive PreservedSlot (context : Context) (value : Value) (tag : Except Unsupported TypeTag) :
    Option (TypeTag × Value) → Prop where
  | nothing (null : value.isNull = true) : PreservedSlot context value tag none
  | body {chosen : TypeTag} {made : Value} (notNull : value.isNull = false)
      (choice : tag = .ok chosen) (back : Preserved context chosen value made) :
      PreservedSlot context value tag (some (chosen, made))

/-- What came back of an element. -/
structure PreservedItem (context : Context) (item made : Value) : Prop where
  stays : (!made.isTransient) = true
  inside : List.Forall₂ ReadBackAs (writtenItem context none item) (writtenItem context none made)

/-- What came back of a member of a map. -/
structure PreservedMember (context : Context) (pair made : String × Value) : Prop where
  stays : (!made.2.isTransient) = true
  inside : List.Forall₂ ReadBackAs (writtenMember context pair) (writtenMember context made)

/-- What came back of a field of a record of some class. -/
structure PreservedField (context : Context) (className : Option String) (field made : Field) :
    Prop where
  name : field.name = made.name
  text : field.value.text? = made.value.text?
  stays : (!Encoding.isOmitted made) = true
  inside : ∀ again, List.Forall₂ ReadBackAs (writtenField context className field)
    (writtenField context again made)

/-- A level at which values come back, of a context without a schema and a registry. -/
structure Preserving (context : Context) (write : BodyWriter) (remember : BodyRecall) : Prop where
  back : ∀ {field : String} {tag : TypeTag} {value : Value} {start : Nat}
    {earlier calls : List LinkTarget} {bytes : List UInt8},
    write field tag none value start earlier = ⟨bytes, calls, .ok ()⟩ → bytes.length < 2 ^ 31 →
    (∀ w ∈ value.written context tag none, Ordinary w) →
    UnlessMarked (value.written context tag none) (remember tag none value) earlier
      (earlier ++ calls) (Preserved context tag value)

namespace Preserving

variable {context : Context} {write : BodyWriter} {remember : BodyRecall}
  (preserving : Preserving context write remember) {start : Nat} {earlier calls : List LinkTarget}
  {bytes : List UInt8}
include preserving

/-! ## Lists and sets

An element comes back under its own tag, whether the list declares one or not. -/

/-- An element that is ordinary comes back as it was: null as null, and any other value as one of
the kind of its tag. -/
theorem item {field : String} {item : Value}
    (ordinary : ∀ w ∈ writtenItem context none item, Ordinary w)
    (run : Encoding.writeItem write field none item start earlier = ⟨bytes, calls, .ok ()⟩)
    (short : bytes.length < 2 ^ 31) : 0 < bytes.length ∧
      UnlessMarked (writtenItem context none item) (Recall.item remember none item) earlier
        (earlier ++ calls) (PreservedItem context item) := by
  rw [writtenItem] at ordinary
  cases WrittenItem.of_eq_ok run with
  | null null =>
    rw [Recall.item, inSlot_of_null null, List.append_nil]
    have nothing : writtenItem context none item = [] := inSlot_of_null null
    -- an absent element is one byte, and nothing is written for it
    refine ⟨Nat.one_pos, ?_⟩
    rw [nothing]
    refine .pure ⟨rfl, ?_⟩
    rw [nothing]
    exact .nil
  | body notNull typed written =>
    have choice := itemTag_natural typed
    have inside : writtenItem context none item = _ := inSlot_of_ok notNull choice
    rw [inSlot_of_ok notNull choice] at ordinary
    rw [List.length_cons] at short
    rw [Recall.item, inSlot_of_ok notNull choice, inside]
    refine ⟨Nat.succ_pos _, (preserving.back written (by omega) ordinary).mono fun made back => ?_⟩
    -- the kind of what came back asks for the same tag
    have again : writtenItem context none made = _ :=
      inSlot_of_ok (Value.isNull_of_naturalTag back.natural) (itemTag_natural back.natural)
    refine ⟨by simp [Value.isTransient_of_naturalTag back.natural], ?_⟩
    rw [inside, again]
    exact back.inside

/-- The values that are written for the list that comes back are those that were written for the
list, one for one, unless a record among them bears the mark. -/
theorem items {field : String} {items : List Value}
    (ordinary : ∀ w ∈ writtenItems context none items, Ordinary w)
    (run : Encoding.writeItems write field none items start earlier = ⟨bytes, calls, .ok ()⟩)
    (short : bytes.length < 2 ^ 31) :
    UnlessMarked (writtenItems context none items) (Recall.items remember none items) earlier
      (earlier ++ calls) fun mades =>
        List.Forall₂ ReadBackAs (writtenItems context none items) (writtenItems context none mades)
      := by
  obtain ⟨elements, each, rfl⟩ := Encoding.writeItems_eq_ok run
  simp only [writtenItems_eq] at ordinary ⊢
  rw [Recall.items]
  generalize items.filter (!·.isTransient) = kept at each short ordinary ⊢
  simp only [List.length_append] at short
  -- each element takes a byte at least, so there are few of them too
  have told : InTurn (fun element earlier calls size => 0 < size ∧ UnlessMarked
      (writtenItem context none element) (Recall.item remember none element) earlier
      (earlier ++ calls) (PreservedItem context element)) kept _ _ _ :=
    .of_forM (fun element there _ _ _ _ one short => preserving.item
      (fun w inside => ordinary w (List.mem_flatMap.mpr ⟨element, there, inside⟩)) one short) each
      (by omega)
  have fewer := told.length_le fun _ _ _ _ fact => fact.1
  refine .of_some (Recall.length_eq_some.mpr ⟨by omega, rfl, rfl⟩) ?_
  refine (UnlessMarked.inTurn (told.mono fun _ _ _ _ fact => fact.2)).mono fun mades all => ?_
  -- nothing that came back is left out
  rw [filter_of_forall₂ all fun _ _ back => back.stays]
  exact ReadBackAs.flatMap (all.imp fun _ _ back => back.inside)

/-! ## Maps

Keys come back as they were: the encoding is short, so none of them is longer than a reader takes.
-/

/-- What stands in a slot comes back, and its kind is that of the tag in the slot. -/
theorem slot {field : String} {value : Value} {tag : Except Unsupported TypeTag} {place : Nat}
    {filling : Option Filling}
    (body : SlotBody value tag (fun tag => write field tag none value) place earlier filling bytes
      calls) (short : bytes.length < 2 ^ 31)
    (ordinary : ∀ w ∈ inSlot value tag [] fun tag => value.written context tag none, Ordinary w) :
    UnlessMarked (inSlot value tag [] fun tag => value.written context tag none)
      (Recall.slot (fun tag => remember tag none value) value tag) earlier (earlier ++ calls)
      (PreservedSlot context value tag) := by
  cases body with
  | null null =>
    rw [Recall.slot, inSlot_of_null null, inSlot_of_null null, List.append_nil]
    exact .pure (.nothing null)
  | body notNull choice written reached =>
    rw [inSlot_of_ok notNull choice] at ordinary
    rw [Recall.slot, inSlot_of_ok notNull choice, inSlot_of_ok notNull choice]
    exact (preserving.back written short ordinary).map fun made back => .body notNull choice back

/-- A member of a map comes back under its key. -/
theorem member {field : String} {pair : String × Value} {place : Nat} {filling : Option Filling}
    (body : SlotBody pair.2 (memberTag pair.2) (fun tag => write field tag none pair.2) place earlier
      filling bytes calls) (short : bytes.length < 2 ^ 31)
    (key : (Utf8.encode pair.1).length < 2 ^ 31)
    (ordinary : ∀ w ∈ writtenMember context pair, Ordinary w) :
    UnlessMarked (writtenMember context pair) (Recall.member remember pair) earlier
      (earlier ++ calls) (PreservedMember context pair) := by
  rw [Recall.member]
  refine .of_some (Recall.string_eq_some.mpr ⟨key, rfl, rfl⟩) ?_
  refine (preserving.slot body short ordinary).map ?_
  rintro held (null | ⟨notNull, choice, back⟩)
  · have nothing : writtenMember context pair = [] := inSlot_of_null null
    refine ⟨rfl, ?_⟩
    rw [nothing]
    exact .nil
  · have inside : writtenMember context pair = _ := inSlot_of_ok notNull choice
    have again : writtenMember context (pair.1, _) = _ :=
      inSlot_of_ok (Value.isNull_of_naturalTag back.natural) (memberTag_natural back.natural)
    refine ⟨by simp [Value.isTransient_of_naturalTag back.natural], ?_⟩
    rw [inside]
    exact again ▸ back.inside

/-- The same of maps as of lists: member by member, the same values are written again. -/
theorem members {field : String} {members : List (String × Value)}
    (ordinary : ∀ w ∈ writtenMembers context members, Ordinary w)
    (run : Encoding.writeMap write field members start earlier = ⟨bytes, calls, .ok ()⟩)
    (short : bytes.length < 2 ^ 31) :
    UnlessMarked (writtenMembers context members) (Recall.members remember members) earlier
      (earlier ++ calls) fun mades =>
        List.Forall₂ ReadBackAs (writtenMembers context members) (writtenMembers context mades) := by
  rw [Encoding.writeMap_eq, Encoding.mapHead, Encoding.mapMembers] at run
  simp only [writtenMembers_eq] at ordinary ⊢
  rw [Recall.members]
  generalize members.filter (!·.2.isTransient) = kept at run ordinary ⊢
  obtain ⟨fillings, bodies, written, rfl⟩ := writeTable_eq_ok run
  have fewer := Entry.length_le_encodeAll ((kept.map (Member.ofPair field)).map
    (Member.entry write)) fillings
  simp only [List.length_append] at short
  rw [List.length_map, List.length_map] at fewer
  -- each member takes bytes, so a short encoding has few of them
  refine .of_some (Recall.length_eq_some.mpr ⟨by omega, rfl, rfl⟩) ?_
  have told : InTurn (fun pair earlier calls _ => UnlessMarked (writtenMember context pair)
      (Recall.member remember pair) earlier (earlier ++ calls) (PreservedMember context pair)) kept
      _ _ _ :=
    .of_bodies (fun pair there {place _ _ bytes _} body short => by
      -- a key stands in the header, so it is as short as the encoding
      have label : (Encoding.keyBytes pair.1).length ≤ _ := Member.label_le_encodeAll write fillings
        (List.mem_map_of_mem (f := Member.ofPair field) there)
      have key := Encoding.length_le_keyBytes pair.1
      exact preserving.member body short (by omega) fun w inside =>
        ordinary w (List.mem_flatMap.mpr ⟨pair, there, inside⟩)) written (by omega)
  refine (UnlessMarked.inTurn told).mono fun mades all => ?_
  rw [filter_of_forall₂ all fun _ _ back => back.stays]
  exact ReadBackAs.flatMap (all.imp fun _ _ back => back.inside)

/-! ## Records

A record comes back with its fields in order.  The empty class name comes back as none, which
changes no tag where there is no schema. -/

variable (bare : context.schema = none)
include bare

/-- A field comes back under its name, with text where it had text, and is kept again.  Under
whatever class it is looked at, the same values are written for it. -/
theorem field {className : Option String} {field : Field} {place : Nat} {filling : Option Filling}
    (body : SlotBody field.value
      (Encoding.fieldTag field (pinnedTag context className field.name))
      (fun tag => write field.name tag (linkedTag context className field.name) field.value) place
      earlier filling bytes calls) (short : bytes.length < 2 ^ 31)
    (heading : Recall.heading context className field.name earlier = some ((), earlier))
    (ordinary : ∀ w ∈ writtenField context className field, Ordinary w) :
    UnlessMarked (writtenField context className field)
      (Recall.field context remember className field) earlier (earlier ++ calls)
      (PreservedField context className field) := by
  rw [Recall.field]
  refine .of_some heading ?_
  rw [writtenField] at ordinary ⊢
  rw [linkedTag_of_bare bare] at body ordinary ⊢
  refine (preserving.slot body short ordinary).map ?_
  rintro held (null | ⟨notNull, choice, back⟩)
  · -- a null field stays one, and nothing is written for it either time
    have nothing : writtenField context className field = [] := inSlot_of_null null
    refine ⟨rfl, ?_, rfl, fun again => ?_⟩
    · rw [Value.eq_null null]
      rfl
    · rw [nothing]
      exact .nil
  · refine ⟨rfl, back.text.symm, ?_, fun again => ?_⟩
    · rw [Option.map_some, Option.map_some, Option.getD_some,
        Encoding.isOmitted_natural field.name back.natural]
      rfl
    · -- the second time the tag is the kind of what came back, pinned or not
      have inside : writtenField context className field = _ := inSlot_of_ok notNull choice
      have tagged : Encoding.fieldTag ⟨field.name, _, some _⟩ (pinnedTag context again field.name)
          = _ :=
        (Encoding.fieldTag_natural field.name back.natural
          (Or.inl (pinnedTag_of_bare bare again field.name))).1
      have again' : writtenField context again ⟨field.name, _, some _⟩ = _ :=
        inSlot_of_ok (Value.isNull_of_naturalTag back.natural) tagged
      rw [inside, linkedTag_of_bare bare]
      rw [linkedTag_of_bare bare] at again'
      exact again' ▸ back.inside

/-- A record comes back field by field, but those that were left out. -/
theorem record {record : Record} (ordinary : ∀ w ∈ record.written context, Ordinary w)
    (run : Encoding.writeRecord context write record start earlier = ⟨bytes, calls, .ok ()⟩)
    (short : bytes.length < 2 ^ 31) :
    UnlessMarked (record.written context) (Recall.record context remember record) earlier
      (earlier ++ calls) fun made =>
        List.Forall₂ (PreservedField context record.className)
          (record.fields.filter (!Encoding.isOmitted ·)) made.fields := by
  rw [Encoding.writeRecord_eq, Encoding.recordMembers, Encoding.recordHead] at run
  rw [record.written_eq, writtenFields_eq] at ordinary ⊢
  rw [Recall.record]
  generalize record.fields.filter (!Encoding.isOmitted ·) = kept at run ordinary ⊢
  obtain ⟨fillings, bodies, written, rfl⟩ := writeTable_eq_ok run
  simp only [List.length_append] at short
  -- the class name is shorter than the encoding that it is part of
  refine .of_some (Recall.string_eq_some.mpr ⟨by omega, rfl, rfl⟩) ?_
  have told : InTurn (fun field earlier calls _ => UnlessMarked
      (writtenField context record.className field)
      (Recall.field context remember record.className field) earlier (earlier ++ calls)
      (PreservedField context record.className field)) kept _ _ _ :=
    .of_bodies (fun field there {place earlier _ bytes _} body short => by
      -- so is every heading
      have label := Member.label_le_encodeAll write fillings
        (List.mem_map_of_mem (f := Member.ofField context record.className) there)
      simp only [Member.value_ofField, Member.tag_ofField, Member.field_ofField,
        Member.linked_ofField] at body
      exact preserving.field bare body short (Recall.heading_of_short (by omega)) fun w inside =>
        ordinary w (List.mem_flatMap.mpr ⟨field, there, inside⟩)) written (by omega)
  exact (UnlessMarked.inTurn told).map fun mades all => all

end Preserving

/-! ## Embedded records

Whether a record is taken for an object is asked of the record that came back, which bears the mark
just if the one that was written does. -/

section Fields

variable {context : Context} {record made : Record}
  (all : List.Forall₂ (PreservedField context record.className)
    (record.fields.filter (!Encoding.isOmitted ·)) made.fields)
include all

theorem PreservedField.fieldNames : made.fieldNames = record.keptNames :=
  (map_of_forall₂ all fun _ _ back => back.name).symm

/-- So the values that are written for the record that comes back are those that were written for
the record. -/
theorem PreservedField.written :
    List.Forall₂ ReadBackAs (record.written context) (made.written context) := by
  rw [record.written_eq, writtenFields_eq, made.written_eq, writtenFields_eq,
    filter_of_forall₂ all fun _ _ back => back.stays]
  exact ReadBackAs.flatMap (all.imp fun _ _ back => back.inside made.className)

/-- The fields that come back mark the record just if those that were written did. -/
theorem PreservedField.any_marks : made.fields.any (·.marks) = record.isMarked := by
  have same : (record.fields.filter (!Encoding.isOmitted ·)).map (·.marks)
      = made.fields.map (·.marks) :=
    map_of_forall₂ all fun before after back => by
      rw [Field.marks, Field.marks, back.name, back.text]
  have each : made.fields.any (·.marks) = (made.fields.map (·.marks)).any id := by
    rw [List.any_map]
    rfl
  rw [each, ← same, List.any_map]
  rfl

end Fields

/-- Without a registry a record that is taken for an object is lost. -/
theorem Recall.embed_of_bare {context : Context} {record : Record} (bare : context.registry = none)
    (distinct : record.fieldNames.Nodup) : embed context record
      = if record.fields.any (·.marks) then none
        else some (.embedded { record with isEmbedded := true }) := by
  split
  · -- a record with the mark is handed to a registry, and there is none
    next marked =>
    obtain ⟨field, there, marks⟩ := List.any_eq_true.mp marked
    obtain ⟨named, text⟩ := Bool.and_eq_true_iff.mp marks
    obtain ⟨className, holds⟩ := Option.isSome_iff_exists.mp text
    rw [embed, ← of_decide_eq_true named, Record.field?_of_mem distinct there,
      Value.text?_eq_some.mp holds]
    dsimp only
    rw [bare]
    rfl
  · next unmarked =>
    refine embed_of_unmarked fun field there named => Option.not_isSome_iff_eq_none.mp fun text => ?_
    exact unmarked (List.any_eq_true.mpr
      ⟨field, there, Bool.and_eq_true_iff.mpr ⟨decide_eq_true named, text⟩⟩)

/-- **An embedded record comes back as one, exactly if it bears no mark.** With no registry a marked
record is refused; and without a mark it comes back with its field names, in their order. -/
theorem Preserving.embedded {context : Context} {write : BodyWriter} {remember : BodyRecall}
    (preserving : Preserving context write remember) (schemaless : context.schema = none)
    (unregistered : context.registry = none) {record : Record} {start : Nat}
    {earlier calls : List LinkTarget} {bytes : List UInt8}
    (ordinary : ∀ w ∈ (Value.embedded record).written context .embedded none, Ordinary w)
    (run : Encoding.writeRecord context write record start earlier = ⟨bytes, calls, .ok ()⟩)
    (short : bytes.length < 2 ^ 31) :
    UnlessMarked ((Value.embedded record).written context .embedded none)
      (Recall.embedded context remember record) earlier (earlier ++ calls)
      (Preserved context .embedded (.embedded record)) := by
  have self := ordinary _ (Value.mem_written _ _ _)
  have fields := preserving.record schemaless
    (fun w inside => ordinary w (List.mem_cons_of_mem _ inside)) run short
  have whole : UnlessMarked (record.written context ++ [(.embedded, .embedded record)])
      (Recall.embedded context remember record) earlier (earlier ++ calls)
      (Preserved context .embedded (.embedded record)) := by
    refine fields.bind fun made all => ?_
    have names := PreservedField.fieldNames all
    have distinct : made.fieldNames.Nodup := by
      rw [names]
      exact (List.filter_sublist.map _).nodup (self.distinct record rfl)
    -- no registry makes objects, so a mark refuses the record and without one it stays a record
    rw [Recall.embed_of_bare unregistered distinct, PreservedField.any_marks all]
    split
    · next marked =>
      exact ⟨fun _ => rfl, fun unmarked => absurd (bearsMark_singleton.mpr marked) unmarked⟩
    · next unmarked =>
      refine .of_recalled (unmarked ∘ bearsMark_singleton.mp) rfl
        ⟨Value.naturalTag_of_isEmbedded rfl, rfl, .cons ⟨rfl, ?_⟩ ?_⟩
      · rintro nested ⟨⟩
        exact ⟨_, rfl, rfl, names⟩
      · exact PreservedField.written all
  -- the record stands before what is in it, and is told from it behind
  refine whole.congr ?_
  show BearsMark ([(.embedded, .embedded record)] ++ record.written context) ↔ _
  rw [bearsMark_append, bearsMark_append, or_comm]

/-! ## The bodies of containers -/

/-- A list, a set or a map bears the marks of what is in it. -/
theorem UnlessMarked.container {α : Type} {context : Context} {tag : TypeTag} {value : Value}
    {inside : List (TypeTag × Value)} {inside' : α → List (TypeTag × Value)} {wrap : α → Value}
    {x : Recalling α} {earlier last : List LinkTarget} (other : tag ≠ .embedded)
    (written : value.written context tag none = (tag, value) :: inside)
    (known : UnlessMarked inside x earlier last fun a => List.Forall₂ ReadBackAs inside (inside' a))
    (natural : ∀ a, (wrap a).naturalTag = some tag) (text : ∀ a, (wrap a).text? = value.text?)
    (written' : ∀ a, (wrap a).written context tag none = (tag, wrap a) :: inside' a) :
    UnlessMarked (value.written context tag none) (x >>= fun a => Pure.pure (wrap a)) earlier last
      (Preserved context tag value) := by
  have wrapped : UnlessMarked inside (x >>= fun a => Pure.pure (wrap a)) earlier last
      (Preserved context tag value) := by
    refine known.map fun a all => ⟨natural a, text a, ?_⟩
    rw [written, written' a]
    exact .cons (.of_tag _ other) all
  refine wrapped.congr ?_
  rw [written, ← List.singleton_append, bearsMark_append]
  exact or_iff_right (not_bearsMark other)

end DocumentCodec
