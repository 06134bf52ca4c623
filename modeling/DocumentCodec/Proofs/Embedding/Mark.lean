import DocumentCodec.Proofs.Reencoding.Scalar
import DocumentCodec.Proofs.RoundTrip.Lossless
import Mathlib.Data.List.Forall2
/-!
# The mark of an object, borne by a record

The mark of a serializable object is an ordinary field with a name that nobody else should use, and
the writer does not look whether somebody does.  A reader takes every embedded record with that
field for an object, if the field holds text; without a registry such a record is lost, and with it
all that it stands in.

Whether a mark is borne is said of the values that were written, which are those of the parts, one
behind the other.  So what is known of the parts only adds up: `UnlessMarked` is closed under all
that recalling is made of.
-/

namespace DocumentCodec

/-! ## The mark -/

/-- A record with the field is taken for an object: it has the name that is set aside for the class
name of one, and holds text. -/
def Field.marks (field : Field) : Bool :=
  field.name = Record.serializableClassField && field.value.text?.isSome

namespace Record

variable (record : Record)

/-- The names of the fields that leave a trace, in order. -/
def keptNames : List String := (record.fields.filter (!Encoding.isOmitted ·)).map (·.name)

/-- The record is taken for an object: one of the fields that leave a trace marks it. -/
def isMarked : Bool := (record.fields.filter (!Encoding.isOmitted ·)).any (·.marks)

end Record

/-- One of the records that were written as part of another is taken for an object. -/
def BearsMark (written : List (TypeTag × Value)) : Prop :=
  ∃ nested, (.embedded, .embedded nested) ∈ written ∧ nested.isMarked = true

theorem not_bearsMark_nil : ¬BearsMark [] := by
  rintro ⟨nested, there, -⟩
  cases there

theorem bearsMark_append {written more : List (TypeTag × Value)} :
    BearsMark (written ++ more) ↔ BearsMark written ∨ BearsMark more := by
  simp only [BearsMark, List.mem_append, or_and_right, exists_or]

theorem bearsMark_singleton {record : Record} :
    BearsMark [(.embedded, .embedded record)] ↔ record.isMarked = true := by
  simp [BearsMark]

/-- Only a record that is written under the tag of records bears a mark. -/
theorem not_bearsMark {tag : TypeTag} {value : Value} (other : tag ≠ .embedded) :
    ¬BearsMark [(tag, value)] := by
  rintro ⟨nested, there, -⟩
  cases List.mem_singleton.mp there
  exact other rfl

/-! ## What comes back

`UnlessMarked` puts the two outcomes side by side: with a mark nothing is recalled, and without one
the value comes back, and that is said of each part by what stands inside it. -/

/-- What came back for a value that was written: a value under the same tag, and for an embedded
record an embedded record with the names of the fields that left a trace. -/
structure ReadBackAs (w made : TypeTag × Value) : Prop where
  tag : made.1 = w.1
  record : ∀ nested, w = (.embedded, .embedded nested) → ∃ inner, made.2 = .embedded inner ∧
    inner.isEmbedded = true ∧ inner.fieldNames = nested.keptNames

/-- Under any tag but that of records only the tag is told. -/
theorem ReadBackAs.of_tag {tag : TypeTag} {value : Value} (made : Value)
    (other : tag ≠ .embedded) : ReadBackAs (tag, value) (tag, made) := by
  refine ⟨rfl, ?_⟩
  rintro nested ⟨⟩
  exact absurd rfl other

/-- What is recalled where something was written: nothing, if a record in it is taken for an object,
and else something good. -/
structure UnlessMarked {α : Type} (written : List (TypeTag × Value)) (remember : Recalling α)
    (earlier last : List LinkTarget) (good : α → Prop) : Prop where
  lost : BearsMark written → remember earlier = none
  kept : ¬BearsMark written → ∃ made, remember earlier = some (made, last) ∧ good made

namespace UnlessMarked

variable {α β : Type} {written more : List (TypeTag × Value)} {x : Recalling α}
  {earlier mid last : List LinkTarget} {good : α → Prop} {good' : β → Prop}

theorem of_recalled {a : α} (unmarked : ¬BearsMark written)
    (recalled : x earlier = some (a, last)) (fact : good a) :
    UnlessMarked written x earlier last good :=
  ⟨fun marked => absurd marked unmarked, fun _ => ⟨a, recalled, fact⟩⟩

theorem pure {a : α} (fact : good a) : UnlessMarked [] (Pure.pure a) earlier earlier good :=
  of_recalled not_bearsMark_nil rfl fact

/-- The fact about what is recalled may be weakened. -/
theorem mono {weaker : α → Prop} (known : UnlessMarked written x earlier last good)
    (implies : ∀ a, good a → weaker a) : UnlessMarked written x earlier last weaker := by
  refine ⟨known.lost, fun unmarked => ?_⟩
  obtain ⟨made, recalled, fact⟩ := known.kept unmarked
  exact ⟨made, recalled, implies made fact⟩

/-- The order in which things were written does not matter for whether one of them is marked. -/
theorem congr (known : UnlessMarked written x earlier last good)
    (same : BearsMark more ↔ BearsMark written) : UnlessMarked more x earlier last good :=
  ⟨fun marked => known.lost (same.mp marked), fun unmarked => known.kept (unmarked ∘ same.mpr)⟩

/-- Sequences: a mark in either part loses the whole. -/
theorem bind {f : α → Recalling β} (first : UnlessMarked written x earlier mid good)
    (second : ∀ a, good a → UnlessMarked more (f a) mid last good') :
    UnlessMarked (written ++ more) (x >>= f) earlier last good' := by
  -- a mark in the first part has lost the whole before the second one begins
  by_cases marked : BearsMark written
  · have lost : (x >>= f) earlier = none := Recalling.run_bind_of_none f (first.lost marked)
    exact ⟨fun _ => lost, fun unmarked => absurd (bearsMark_append.mpr (Or.inl marked)) unmarked⟩
  · obtain ⟨a, recalled, fact⟩ := first.kept marked
    have later := second a fact
    have rest : (x >>= f) earlier = f a mid := Recalling.run_bind recalled
    constructor
    · intro both
      rw [rest]
      exact later.lost ((bearsMark_append.mp both).resolve_left marked)
    · intro unmarked
      rw [rest]
      exact later.kept fun inside => unmarked (bearsMark_append.mpr (Or.inr inside))

/-- What is made of a recalled value loses nothing more. -/
theorem map {wrap : α → β} (first : UnlessMarked written x earlier last good)
    (keeps : ∀ a, good a → good' (wrap a)) :
    UnlessMarked written (x >>= fun a => Pure.pure (wrap a)) earlier last good' := by
  have both : UnlessMarked (written ++ []) _ earlier last good' :=
    first.bind fun a fact => pure (keeps a fact)
  rwa [List.append_nil] at both

/-- What is only checked bears no mark. -/
theorem of_some {f : α → Recalling β} {a : α} (checked : x earlier = some (a, earlier))
    (rest : UnlessMarked written (f a) earlier last good') :
    UnlessMarked written (x >>= f) earlier last good' := by
  have here : UnlessMarked [] x earlier earlier (· = a) :=
    of_recalled not_bearsMark_nil checked rfl
  exact here.bind fun _ same => same ▸ rest

/-- Things that were written in turn. -/
theorem inTurn {inside : α → List (TypeTag × Value)} {remember : α → Recalling β}
    {back : α → β → Prop} {items : List α} {calls : List LinkTarget} {size : Nat}
    (told : InTurn (fun a earlier calls _ =>
      UnlessMarked (inside a) (remember a) earlier (earlier ++ calls) (back a)) items earlier calls
      size) :
    UnlessMarked (items.flatMap inside) (items.mapM remember) earlier (earlier ++ calls)
      (List.Forall₂ back items) := by
  induction told with
  | nil =>
    rw [List.append_nil]
    exact pure .nil
  | cons first _ ih =>
    rw [List.mapM_cons, List.flatMap_cons, ← List.append_assoc]
    exact first.bind fun b fact => ih.map fun bs facts => .cons fact facts

end UnlessMarked

/-! ## Values that hold no others -/

/-- A value that comes back, unless it bears a mark: no day, which may have no midnight, no object,
which needs a factory, and no record in which one field hides another. -/
structure Ordinary (w : TypeTag × Value) : Prop where
  dateless : w.1 ≠ .date
  objectless : ∀ className record, w.2 ≠ .serializable className record
  distinct : ∀ record, w.2 = .embedded record → record.fieldNames.Nodup

/-- What came back of a value that was written under a tag: a value of the kind of the tag, text for
text, and in it what was written in the other one. -/
structure Preserved (context : Context) (tag : TypeTag) (value made : Value) : Prop where
  natural : made.naturalTag = some tag
  text : made.text? = value.text?
  inside : List.Forall₂ ReadBackAs (value.written context tag none) (made.written context tag none)

/-- Under a tag without bodies inside nothing is written but the value of its kind. -/
theorem Value.written_of_naturalTag {context : Context} {tag : TypeTag} {linked : Option TypeTag}
    {value : Value} (natural : value.naturalTag = some tag) (flat : tag.isContainer = false) :
    value.written context tag linked = [(tag, value)] := by
  cases value with
  | embedded record =>
    -- a record that is not embedded is a link of its own kind, and nothing in it is written
    rw [naturalTag] at natural
    split at natural
    · cases natural
      rfl
    · cases natural
      cases flat
  | embeddedList _ | embeddedSet _ | embeddedMap _ | serializable _ _ =>
    cases natural
    cases flat
  | _ => rfl

section Scalars

variable {context : Context} {field : String} {tag : TypeTag} {value made : Value} {start : Nat}
  {asked earlier calls last : List LinkTarget} {bytes : List UInt8}

/-- What is recalled of a body without bodies inside is of the kind of its tag. -/
theorem Recall.naturalTag_scalar
    (written : WrittenScalar context field start asked tag value bytes calls)
    (run : Recall.scalar context tag value earlier = some (made, last)) :
    made.naturalTag = some tag := by
  cases written with
  | short number _ =>
    rw [scalar_short number] at run
    cases run
    rfl
  | integer number _ =>
    rw [scalar_integer number] at run
    cases run
    rfl
  | long number =>
    rw [scalar_long number] at run
    cases run
    rfl
  | dateTime instant =>
    rw [scalar_dateTime instant] at run
    cases run
    rfl
  | date instant =>
    rw [scalar_date instant] at run
    obtain ⟨_, _, -, same⟩ := Recalling.run_bind_eq_some.mp run
    cases same
    rfl
  | double _ | widened _ | float _ | byte _ | boolean _ | decimal _ =>
    cases run
    rfl
  | string _ | binary _ | linkBag _ | link _ | linked _ | linkMap _ =>
    obtain ⟨_, _, -, same⟩ := Recalling.run_bind_eq_some.mp run
    cases same
    rfl
  | linkList sort _ | linkSet sort _ =>
    rcases sort with rfl | rfl
    all_goals
      obtain ⟨_, _, -, same⟩ := Recalling.run_bind_eq_some.mp run
      cases same
      rfl
  | custom _ =>
    -- the name and the stream, then the registry, then what its factory makes of them
    obtain ⟨_, _, -, run⟩ := Recalling.run_bind_eq_some.mp run
    obtain ⟨_, _, -, run⟩ := Recalling.run_bind_eq_some.mp run
    obtain ⟨_, _, -, run⟩ := Recalling.run_bind_eq_some.mp run
    obtain ⟨_, _, -, same⟩ := Recalling.run_bind_eq_some.mp run
    cases same
    rfl

/-- Text comes back as text, and nothing else does. -/
theorem Recall.text?_scalar
    (written : Encoding.writeScalar context field tag value start asked = ⟨bytes, calls, .ok ()⟩)
    (run : Recall.scalar context tag value earlier = some (made, last)) :
    made.text? = value.text? := by
  cases holds : value.text? with
  | some text =>
    obtain rfl := Value.text?_eq_some.mp holds
    rw [scalar_text run]
    rfl
  | none =>
    have natural := naturalTag_scalar (WrittenScalar.of_eq_ok written) run
    cases made with
    | string text =>
      -- only text is written under the tag of strings
      cases natural
      cases value with
      | string other => cases holds
      | _ => cases written
    | _ => rfl

/-- Under a tag without bodies inside only days can lose something. -/
theorem Lossless.of_flat (flat : tag.isContainer = false) (dateless : tag ≠ .date)
    (run : Encoding.writeScalar context field tag value start earlier = ⟨bytes, calls, .ok ()⟩) :
    Lossless context (tag, value) := by
  have other : tag ≠ .embedded := by
    rintro rfl
    cases flat
  constructor
  · intro record holds
    exact absurd holds (by simp [heldRecord, other])
  · rintro record ⟨⟩
    exact absurd rfl other
  · rintro className record ⟨⟩
    exact absurd rfl other
  · -- an object is written as a record, and under no other tag
    rintro className record rfl
    cases tag <;> cases run
  · rintro millis rfl
    exact absurd rfl dateless

/-- A body without bodies inside comes back, if it is no day. -/
theorem UnlessMarked.scalar (bare : context.registry = none) (dateless : tag ≠ .date)
    (flat : tag.isContainer = false) (short : bytes.length < 2 ^ 31)
    (run : Encoding.writeScalar context field tag value start earlier = ⟨bytes, calls, .ok ()⟩) :
    UnlessMarked (value.written context tag none) (Recall.scalar context tag value) earlier
      (earlier ++ calls) (Preserved context tag value) := by
  have alone : value.written context tag none = [(tag, value)] := Value.written_of_scalar run
  have other : tag ≠ .embedded := by
    rintro rfl
    cases flat
  have faithful (registry : Registry) (known : context.registry = some registry) :
      registry.IsFaithful := by
    rw [bare] at known
    cases known
  -- what is recalled is the normal form; that it has the same tag and the same text is said of the
  -- recalling alone
  obtain ⟨made, recalled, -⟩ : Agrees _ (value.normal context tag none) _ _ :=
    Agrees.scalar faithful short (.of_flat flat dateless run) run
  have natural := Recall.naturalTag_scalar (WrittenScalar.of_eq_ok run) recalled
  rw [alone]
  refine .of_recalled (not_bearsMark other) recalled ⟨natural, Recall.text?_scalar run recalled, ?_⟩
  rw [alone, Value.written_of_naturalTag natural flat]
  exact .cons (.of_tag made other) .nil

end Scalars

end DocumentCodec
