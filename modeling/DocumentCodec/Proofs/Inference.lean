import DocumentCodec.Proofs.Refusals
/-!
# Types that values are given

Where nothing pins a type, a value is stored under the tag of its kind.  Which tag that is and what
the writer takes under a tag are said in two places, each a table over all kinds.  They have to
agree for every kind of value and wherever a value may stand: in a field, as an element, in a map,
in a record inside another, in the record of an object.

So what remains that an encoding without a schema can fail for, if no field is pinned, is what no
tag could help: a link without identity, containers too deep, an object that nobody could read back,
a decimal that does not fit its form, a body that no slot reaches.  The values that have no tag at
all are not met, because what is null has no body and what is transient is left out before a tag is
asked for.
-/

namespace DocumentCodec

/-! ## What is pinned, and what is left to fail

A record is free of pins if no field in it has one, at any depth.  What may still go wrong then is
listed by `CodecError.OfInferred`, reason by reason. -/

/-- Nothing pins the field, or what does leaves its type open. -/
def Field.isUnpinned (field : Field) : Bool := field.pinned.all (!·.isConcrete)

/-- At every level that is written, the records that objects make among them, no field is pinned. -/
def Record.IsUnpinned (context : Context) (record : Record) : Prop :=
  ∀ level ∈ record.levels context, ∀ field ∈ level.fields, field.isUnpinned = true

instance (context : Context) (record : Record) : Decidable (record.IsUnpinned context) :=
  inferInstanceAs (Decidable (∀ level ∈ record.levels context, ∀ field ∈ level.fields, _ = _))

/-- The tag is at fault: it is missing, it is not the one of a schema, or the writer rejects the
value under it. -/
def Unsupported.isOfTag : Unsupported → Bool
  | .wrongKind _ | .outOfRange _ _ | .noBody _ => true
  | .untypedField | .untypedElement | .untypedMapValue => true
  | .typeConflict _ _ => true
  | .unregisteredCustom _ | .scaleTooWide _ | .unscaledTooLong | .beyondPointers => false

/-- What an encoding that ends at `last` fails for, where the values `written` were to be written
under tags of their own. -/
inductive CodecError.OfInferred (context : Context) (written : List (TypeTag × Value)) (last : Nat) :
    CodecError → Prop where
  | unresolved (rid : RecordId) (problem : LinkProblem) :
      OfInferred context written last (.linkResolutionFailure rid problem)
  | tooDeep : OfInferred context written last context.tooDeep
  /-- an object of a type that has no factory -/
  | unregistered {typeName : String} {stream : List UInt8} (field : String)
      (there : (.custom, .custom typeName stream) ∈ written)
      (unknown : context.registry.any (·.hasCustom typeName) = false) :
      OfInferred context written last
        (.unsupportedValue field (Value.custom typeName stream).kind (.unregisteredCustom typeName))
  | scaleTooWide {number : Decimal} (field : String) (there : (.decimal, .decimal number) ∈ written)
      (wide : ¬Signed.Fits32 number.scale.toInt) :
      OfInferred context written last
        (.unsupportedValue field "decimal" (.scaleTooWide number.scale))
  | unscaledTooLong {number : Decimal} (field : String)
      (there : (.decimal, .decimal number) ∈ written)
      (long : 2 ^ 31 ≤ (BigEndian.encodeSigned number.unscaled).length) :
      OfInferred context written last (.unsupportedValue field "decimal" .unscaledTooLong)
  /-- a body that began further on than a slot can point, and the encoding ends there or behind
  it -/
  | beyondPointers (field kind : String) (far : Slot.maxPointer < last) :
      OfInferred context written last (.unsupportedValue field kind .beyondPointers)

namespace CodecError.OfInferred

variable {context : Context} {written more : List (TypeTag × Value)} {last : Nat} {e : CodecError}

/-- A reason stays one where more is written: each names a part that was there before. -/
theorem mono (known : e.OfInferred context written last) (among : written ⊆ more) :
    e.OfInferred context more last := by
  cases known with
  | unresolved rid problem => exact .unresolved rid problem
  | tooDeep => exact .tooDeep
  | unregistered field there unknown => exact .unregistered field (among there) unknown
  | scaleTooWide field there wide => exact .scaleTooWide field (among there) wide
  | unscaledTooLong field there long => exact .unscaledTooLong field (among there) long
  | beyondPointers field kind far => exact .beyondPointers field kind far

/-- A string never fails for itself. -/
theorem of_string {text : String}
    (known : e.OfInferred context [(.string, .string text)] last) : e.OfInferred context [] last := by
  cases known with
  | unresolved rid problem => exact .unresolved rid problem
  | tooDeep => exact .tooDeep
  | unregistered _ there _ | scaleTooWide _ there _ | unscaledTooLong _ there _ =>
    cases List.mem_singleton.mp there
  | beyondPointers field kind far => exact .beyondPointers field kind far

/-- **The tag is never at fault.** -/
theorem not_isOfTag {field kind : String} {reason : Unsupported}
    (known : (CodecError.unsupportedValue field kind reason).OfInferred context written last) :
    reason.isOfTag = false := by
  generalize same : CodecError.unsupportedValue field kind reason = e at known
  cases known with
  | unresolved _ _ | tooDeep => cases same
  | unregistered _ _ _ | scaleTooWide _ _ _ | unscaledTooLong _ _ _ | beyondPointers _ _ _ =>
    cases same
    rfl

end CodecError.OfInferred

/-- A value that has a body has a tag of its own. -/
theorem Value.exists_naturalTag {value : Value} (notNull : value.isNull = false)
    (notTransient : value.isTransient = false) : ∃ tag, value.naturalTag = some tag := by
  rw [← Option.ne_none_iff_exists']
  intro none
  rcases (Value.naturalTag_eq_none_iff value).mp none with null | transient
  · exact Bool.false_ne_true (notNull.symm.trans null)
  · exact Bool.false_ne_true (notTransient.symm.trans transient)

/-- Setting a field pins none. -/
theorem Record.isUnpinned_set {record : Record} {name : String} {value : Value}
    (unpinned : ∀ field ∈ record.fields, field.isUnpinned = true) :
    ∀ field ∈ (record.set name value).fields, field.isUnpinned = true := by
  intro field there
  rw [set] at there
  split at there
  · obtain ⟨before, inside, rfl⟩ := List.mem_map.mp there
    -- setting a value leaves the pin of the field as it was; a new field has none
    by_cases here : before.name = name
    · rw [if_pos here]
      exact unpinned before inside
    · rw [if_neg here]
      exact unpinned before inside
  · rcases List.mem_append.mp there with inside | last
    · exact unpinned field inside
    · rw [List.mem_singleton.mp last]
      rfl

/-! ## Values that hold no others

The tag of a kind takes every value of the kind.  So no value is refused for its tag, and what is
left are the two limits of a decimal, the name of an object, and the identity of a link. -/

namespace Encoding

open Encoder

variable {context : Context}

/-- An encoder of these values fails for what remains, and for nothing that a tag could help. -/
abbrev InferredOnly {α : Type} (context : Context) (written : List (TypeTag × Value))
    (x : Encoder α) : Prop :=
  FailsOnly (fun last e => e.OfInferred context written last) x

/-- A number within the range of its tag is written. -/
theorem inferred_integer {field : String} {tag : TypeTag} {value : Value} {v : Int64}
    {written : List (TypeTag × Value)} (number : value.int64? = some v)
    (fits : inRange tag v = true) : InferredOnly context written (writeInteger field tag value) := by
  rw [writeInteger, number]
  dsimp only
  rw [if_pos fits]
  exact .emit _

/-- A decimal fails for its scale or for its length, and is named then as what was written. -/
theorem inferred_decimal {field : String} {number : Decimal} {written : List (TypeTag × Value)}
    (there : (.decimal, .decimal number) ∈ written) :
    InferredOnly context written (writeDecimal field number) := by
  rw [writeDecimal]
  by_cases wide : ¬Signed.Fits32 number.scale.toInt
  · rw [if_pos wide]
    exact .fail fun last => .scaleTooWide field there wide
  · rw [if_neg wide]
    split
    · next long => exact .fail fun last => .unscaledTooLong field there (by omega)
    · exact .emit _

/-- An object of the application's fails for its type not being registered. -/
theorem inferred_custom {field typeName : String} {stream : List UInt8}
    {written : List (TypeTag × Value)} (there : (.custom, .custom typeName stream) ∈ written) :
    InferredOnly context written (writeCustom context field typeName stream) := by
  rw [writeCustom]
  split
  · exact (FailsOnly.emit _).bind fun _ => .emit _
  · next unknown =>
    exact .fail fun last => .unregistered field there (Bool.eq_false_iff.mpr unknown)

/-- **The writer takes every value under its own tag**: one case for each kind. -/
theorem inferred_scalar {field : String} {tag : TypeTag} {value : Value}
    (flat : tag.isContainer = false) (natural : value.naturalTag = some tag) :
    InferredOnly context (value.written context tag none) (writeScalar context field tag value) := by
  have unresolved (last : Nat) (rid : RecordId) (problem : LinkProblem) :
      (CodecError.linkResolutionFailure rid problem).OfInferred context
        (value.written context tag none) last := .unresolved rid problem
  have there : (tag, value) ∈ value.written context tag none := Value.mem_written tag none value
  cases value with
  | null | transient => cases natural
  | short v =>
    cases natural
    refine inferred_integer (v := v.toInt64) rfl (decide_eq_true ?_)
    rw [Int16.toInt_toInt64]
    exact ⟨Int16.le_toInt v, Int.le_of_lt_add_one (Int16.toInt_lt v)⟩
  | integer v =>
    cases natural
    refine inferred_integer (v := v.toInt64) rfl (decide_eq_true ?_)
    rw [Int32.toInt_toInt64]
    exact ⟨Int32.le_toInt v, Int.le_of_lt_add_one (Int32.toInt_lt v)⟩
  | long v =>
    cases natural
    exact inferred_integer (v := v) rfl rfl
  | decimal number =>
    cases natural
    exact inferred_decimal there
  | custom typeName stream =>
    cases natural
    exact inferred_custom there
  | embedded record =>
    -- a record goes under the tag of links, or is a container
    obtain rfl := Option.some.inj natural
    split at flat
    · next stored =>
      rw [if_pos stored] at unresolved ⊢
      exact .link unresolved _
    · cases flat
  | link target =>
    cases natural
    exact .link unresolved target
  | linkList items | linkSet items =>
    cases natural
    exact .links unresolved items
  | linkMap entries =>
    cases natural
    exact .linkMap unresolved entries
  | embeddedList _ | embeddedSet _ | embeddedMap _ | serializable _ _ =>
    cases natural
    cases flat
  | _ =>
    cases natural
    exact .emit _

/-! ## Bodies with bodies inside

What stands inside is written under its own tag too, as nothing prescribes one where there is no
schema. -/

/-- The record that is written for a value, if one is, has no pinned field. -/
def Unpinned (w : TypeTag × Value) : Prop :=
  ∀ held, heldRecord w = some held → ∀ field ∈ held.fields, field.isUnpinned = true

/-- Values are written under their own tags, and what they fail for is what remains. -/
def Infers (context : Context) (write : BodyWriter) : Prop :=
  ∀ (field : String) (tag : TypeTag) (value : Value), value.naturalTag = some tag →
    (∀ w ∈ value.written context tag none, Unpinned w) →
    InferredOnly context (value.written context tag none) (write field tag none value)

theorem inferred_mono {α : Type} {written more : List (TypeTag × Value)} {x : Encoder α}
    (inferred : InferredOnly context written x) (among : written ⊆ more) :
    InferredOnly context more x := inferred.mono fun _ _ known => known.mono among

/-- A field that is not pinned goes under the tag of its value. -/
theorem fieldTag_unpinned {field : Field} (unpinned : field.isUnpinned = true) {tag : TypeTag}
    (natural : field.value.naturalTag = some tag) : fieldTag field none = .ok tag := by
  have open' : field.pinned.filter (·.isConcrete) = none := by
    rw [Field.isUnpinned] at unpinned
    cases pins : field.pinned with
    | none => rfl
    | some pinned =>
      rw [pins] at unpinned
      simpa using unpinned
  unfold fieldTag
  rw [open', natural]

section Tables

variable {write : BodyWriter}

/-- A table whose members go under tags that the writer takes. -/
theorem inferred_table {written : List (TypeTag × Value)} (head tail : List UInt8)
    (members : List Member) (each : ∀ member ∈ members, member.value.isNull = false →
      ∃ tag, member.tag = .ok tag ∧
        InferredOnly context written (write member.field tag member.linked member.value)) :
    InferredOnly context written (writeTable head (members.map (Member.entry write)) tail) := by
  refine .table head tail members fun member inside body there => ?_
  obtain ⟨tag, chosen, inferred⟩ := each member inside (Member.notNull_of_body there)
  refine .member there (fun reason failed => ?_) (fun other chosen' => ?_)
    fun last far => .beyondPointers _ _ far
  · rw [chosen] at failed
    cases failed
  · rw [chosen] at chosen'
    cases chosen'
    exact inferred

variable (plain : context.schema = none)
include plain

theorem property?_plain (className : Option String) (name : String) :
    property? context className name = none := by
  unfold property?
  rw [plain]

/-- A record none of whose fields is pinned; what is written for one of them need not be written for
the record, as long as it fails for nothing else. -/
theorem inferred_fields {written : List (TypeTag × Value)} {record : Record}
    (unpinned : ∀ field ∈ record.fields, field.isUnpinned = true)
    (each : ∀ field ∈ record.fields, isOmitted field = false → ∀ tag,
      field.value.naturalTag = some tag →
      InferredOnly context written (write field.name tag none field.value)) :
    InferredOnly context written (writeRecord context write record) := by
  rw [writeRecord_eq]
  refine inferred_table _ _ _ fun member inside notNull => ?_
  obtain ⟨field, kept, rfl⟩ := List.mem_map.mp inside
  obtain ⟨there, kept⟩ := List.mem_filter.mp kept
  have traced : isOmitted field = false := by simpa using kept
  rw [Member.value_ofField] at notNull
  obtain ⟨tag, natural⟩ := Value.exists_naturalTag notNull (Bool.or_eq_false_iff.mp traced).1
  have unknown := property?_plain plain record.className field.name
  rw [Member.tag_ofField, Member.field_ofField, Member.linked_ofField, Member.value_ofField,
    pinnedTag_of_none unknown, linkedTag_of_none unknown]
  exact ⟨tag, fieldTag_unpinned (unpinned field there) natural, each field there traced tag natural⟩

/-- What is written for a field that is not pinned is written for its record. -/
theorem written_subset {record : Record} {field : Field} (there : field ∈ record.fields)
    (traced : isOmitted field = false) (unpinned : field.isUnpinned = true) {tag : TypeTag}
    (natural : field.value.naturalTag = some tag) :
    field.value.written context tag none ⊆ record.written context := by
  intro w inside
  rw [Record.written_eq, writtenFields_eq]
  refine List.mem_flatMap.mpr ⟨field, List.mem_filter.mpr ⟨there, by simpa using traced⟩, ?_⟩
  have unknown := property?_plain plain record.className field.name
  rw [writtenField, pinnedTag_of_none unknown, linkedTag_of_none unknown,
    inSlot_of_ok (Value.isNull_of_naturalTag natural) (fieldTag_unpinned unpinned natural)]
  exact inside

end Tables

section Containers

variable {write : BodyWriter} (infers : Infers context write)
include infers

/-- Elements are written under their own tags.  Nothing is prescribed, so each has one, unless it is
null or left out. -/
theorem inferred_items {field : String} {items : List Value}
    (unpinned : ∀ w ∈ writtenItems context none items, Unpinned w) :
    InferredOnly context (writtenItems context none items) (writeItems write field none items) := by
  refine (FailsOnly.emit _).bind fun _ => (FailsOnly.emit _).bind fun _ =>
    .forM _ fun item kept => ?_
  unfold writeItem
  by_cases null : item.isNull = true
  · rw [if_pos null]
    exact .emit _
  · rw [if_neg null]
    rw [Bool.not_eq_true] at null
    -- what is neither null nor left out has a tag of its own
    obtain ⟨tag, natural⟩ := Value.exists_naturalTag null
      (by simpa using (List.mem_filter.mp kept).2)
    have among : item.written context tag none ⊆ writtenItems context none items := by
      intro w there
      rw [writtenItems_eq]
      refine List.mem_flatMap.mpr ⟨item, kept, ?_⟩
      rw [writtenItem, inSlot_of_ok null (itemTag_natural natural)]
      exact there
    have chosen : ((none : Option TypeTag).filter (·.isConcrete) <|> item.naturalTag) = some tag :=
      natural
    rw [chosen]
    exact (FailsOnly.emit _).bind fun _ => inferred_mono
      (infers field tag item natural fun w there => unpinned w (among there)) among

/-- Members of a map are written under their own tags too. -/
theorem inferred_map {field : String} {pairs : List (String × Value)}
    (unpinned : ∀ w ∈ writtenMembers context pairs, Unpinned w) :
    InferredOnly context (writtenMembers context pairs) (writeMap write field pairs) := by
  rw [writeMap_eq]
  refine inferred_table _ _ _ fun member inside notNull => ?_
  obtain ⟨pair, kept, rfl⟩ := List.mem_map.mp inside
  replace notNull : pair.2.isNull = false := notNull
  -- neither null nor left out, so the value has a tag of its own
  obtain ⟨tag, natural⟩ := Value.exists_naturalTag notNull
    (by simpa using (List.mem_filter.mp kept).2)
  have chosen := memberTag_natural natural
  have among : pair.2.written context tag none ⊆ writtenMembers context pairs := by
    intro w there
    rw [writtenMembers_eq]
    refine List.mem_flatMap.mpr ⟨pair, kept, ?_⟩
    rw [writtenMember, inSlot_of_ok notNull chosen]
    exact there
  exact ⟨tag, chosen, inferred_mono
    (infers field tag pair.2 natural fun w there => unpinned w (among there)) among⟩

/-- What is written for a field of a record. -/
theorem inferred_field (plain : context.schema = none) {record : Record}
    (unpinned : ∀ field ∈ record.fields, field.isUnpinned = true)
    (inside : ∀ w ∈ record.written context, Unpinned w) {field : Field}
    (there : field ∈ record.fields) (traced : isOmitted field = false) {tag : TypeTag}
    (natural : field.value.naturalTag = some tag) :
    InferredOnly context (record.written context) (write field.name tag none field.value) := by
  have among := written_subset plain there traced (unpinned field there) natural
  exact inferred_mono
    (infers field.name tag field.value natural fun w mem => inside w (among mem)) among

/-- So are the fields of a record without a pin, if no schema prescribes a tag. -/
theorem inferred_record (plain : context.schema = none) {record : Record}
    (unpinned : ∀ field ∈ record.fields, field.isUnpinned = true)
    (inside : ∀ w ∈ record.written context, Unpinned w) :
    InferredOnly context (record.written context) (writeRecord context write record) :=
  inferred_fields plain unpinned fun _ there traced _ natural =>
    inferred_field infers plain unpinned inside there traced natural

/-- The record of an object has a field more than is written of it: the name of its class, which is
a string and fails for nothing of its own. -/
theorem inferred_markedRecord (plain : context.schema = none) {className : String} {record : Record}
    (unpinned : ∀ field ∈ record.fields, field.isUnpinned = true)
    (inside : ∀ w ∈ record.written context, Unpinned w) :
    InferredOnly context (record.written context)
      (writeRecord context write (markedRecord className record)) := by
  refine inferred_fields plain (Record.isUnpinned_set unpinned) fun field there traced tag natural => ?_
  rcases Record.mem_fields_set there with before | ⟨-, marks⟩
  · exact inferred_field infers plain unpinned inside before traced natural
  · rw [marks] at natural ⊢
    cases natural
    have marker := infers field.name .string (.string className) rfl fun w mem => by
      cases List.mem_singleton.mp mem
      exact fun held holds => nomatch holds
    exact marker.mono fun last e known => known.of_string.mono (List.nil_subset _)

end Containers

/-! ## Level by level -/

/-- At the limit every container is too deep, and before it what it holds is written. -/
theorem inferred_container {written : List (TypeTag × Value)} {inner : Except CodecError BodyWriter}
    (deeper : inner = .error context.tooDeep ∨ ∃ write, inner = .ok write ∧ Infers context write)
    (within : BodyWriter → Encoder Unit)
    (inferred : ∀ write, Infers context write → InferredOnly context written (within write)) :
    InferredOnly context written
      (match inner with
        | .error e => Encoder.fail e
        | .ok inner => within inner) := by
  rcases deeper with rfl | ⟨write, rfl, infers⟩
  · exact .fail fun last => .tooDeep
  · exact inferred write infers

/-- **One level more of containers**, or none left. -/
theorem infers_bodyWith (plain : context.schema = none) {inner : Except CodecError BodyWriter}
    (deeper : inner = .error context.tooDeep ∨ ∃ write, inner = .ok write ∧ Infers context write) :
    Infers context (writeBodyWith context inner) := by
  intro field tag value natural unpinned
  cases flat : tag.isContainer with
  | false =>
    rw [writeBodyWith_flat flat]
    exact inferred_scalar flat natural
  | true =>
    -- the value itself says that its fields are not pinned, and what is written for it those below
    have own := unpinned _ (Value.mem_written tag none value)
    cases value with
    | embedded record =>
      -- a record with an identity is stored as a link, which is no container
      rw [Value.naturalTag] at natural
      split at natural
      · cases natural
        cases flat
      · cases natural
        have among : record.written context ⊆ Value.written context .embedded none
            (.embedded record) := fun w there => List.mem_cons_of_mem _ there
        exact inferred_container deeper _ fun write infers => inferred_mono
          (inferred_record infers plain (own record rfl) fun w there => unpinned w (among there)) among
    | serializable className record =>
      cases natural
      have among : record.written context ⊆ Value.written context .embedded none
          (.serializable className record) := fun w there => List.mem_cons_of_mem _ there
      exact inferred_container deeper _ fun write infers => inferred_mono
        (inferred_markedRecord infers plain (own record rfl) fun w there => unpinned w (among there))
        among
    | embeddedList items | embeddedSet items =>
      cases natural
      exact inferred_container deeper _ fun write infers => inferred_mono
        (inferred_items infers fun w there => unpinned w (List.mem_cons_of_mem _ there))
        fun w there => List.mem_cons_of_mem _ there
    | embeddedMap pairs =>
      cases natural
      exact inferred_container deeper _ fun write infers => inferred_mono
        (inferred_map infers fun w there => unpinned w (List.mem_cons_of_mem _ there))
        fun w there => List.mem_cons_of_mem _ there
    | null | transient => cases natural
    | _ =>
      cases natural
      cases flat

/-- Every level takes values under their own tags. -/
theorem infers_body (plain : context.schema = none) (room : Nat) :
    Infers context (writeBody context room) := by
  induction room with
  | zero => exact infers_bodyWith plain (.inl rfl)
  | succ room ih => exact infers_bodyWith plain (.inr ⟨_, rfl, ih⟩)

end Encoding

/-! ## Whole records -/

namespace Record

/-- What pins no field at any level pins none of the record's own, nor one of a record in it. -/
theorem IsUnpinned.levels {context : Context} {record : Record} (unpinned : record.IsUnpinned context) :
    (∀ field ∈ record.fields, field.isUnpinned = true) ∧
      ∀ w ∈ record.written context, Encoding.Unpinned w :=
  ⟨unpinned record List.mem_cons_self, fun w there held holds =>
    unpinned held (List.mem_cons_of_mem _ (List.mem_filterMap.mpr ⟨w, there, holds⟩))⟩

/-- **No tag that is inferred is one that the writer rejects.**  Where there is no schema and no
field is pinned at any level that is written, an encoding fails, wherever it begins and whatever the
resolver was asked for before, only because a link has no identity, containers nest too deep, the
type of an object is not registered, a decimal's scale is wider than 32 bits or its unscaled part
2³¹ bytes long or longer, or the encoding went on past the last offset that a slot can hold.  It
never fails because a tag is missing, or because the writer does not take the value under it. -/
theorem emission_inferred (context : Context) (plain : context.schema = none) {record : Record}
    (unpinned : record.IsUnpinned context) :
    (∀ start earlier e, (record.emission context start earlier).result = .error e →
      e.OfInferred context (record.written context)
        (start + (record.emission context start earlier).bytes.length) ∧
      ∀ field kind reason, e = .unsupportedValue field kind reason → reason.isOfTag = false) ∧
    ∀ e, record.encode context = .error e →
      e.OfInferred context (record.written context) (record.emission context 0 []).bytes.length := by
  obtain ⟨own, inside⟩ := unpinned.levels
  have inferred : Encoding.InferredOnly context (record.written context) (record.emission context) :=
    Encoding.inferred_record (Encoding.infers_body plain context.options.maxDepth) plain own inside
  refine ⟨fun start earlier e failed => ⟨inferred start earlier e failed, ?_⟩, fun e failed => ?_⟩
  · rintro field kind reason rfl
    exact (inferred start earlier _ failed).not_isOfTag
  · -- an encoding is the emission at the start, before anything was asked
    have known := inferred 0 [] e
    rw [Nat.zero_add] at known
    refine known ?_
    rw [encode] at failed
    cases run : (record.emission context 0 []).result with
    | ok _ =>
      rw [run] at failed
      cases failed
    | error e' =>
      rw [run] at failed
      cases failed
      rfl

/-- What is null keeps its place and what is transient is left out; two levels down, in the record
of an object in a list, stands an object of a type that has no factory. -/
theorem emission_inferred_until_unregistered :
    let object : Record := ⟨none, RecordId.empty, [⟨"c", .custom "t" [7], some .any⟩], false⟩
    let record : Record := ⟨some "C", RecordId.empty,
      [⟨"n", .null, none⟩, ⟨"s", .short 5, some .any⟩,
        ⟨"l", .embeddedList [.null, .transient, .decimal ⟨12, 1⟩, .serializable "O" object], none⟩],
      false⟩
    let context : Context := {}
    record.IsUnpinned context ∧
      record.encode context
        = .error (.unsupportedValue "c" "Custom" (.unregisteredCustom "t")) ∧
      (CodecError.unsupportedValue "c" "Custom" (.unregisteredCustom "t")).OfInferred context
        (record.written context) (record.emission context 0 []).bytes.length := by
  intro object record context
  have unpinned : record.IsUnpinned context := by
    subst record object context
    decide
  have failed : record.encode context
      = .error (.unsupportedValue "c" "Custom" (.unregisteredCustom "t")) := by
    subst record object context
    rfl
  have known := (emission_inferred context rfl unpinned).2 _ failed
  exact ⟨unpinned, failed, known⟩

end Record
end DocumentCodec
