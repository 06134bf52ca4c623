import DocumentCodec.Proofs.Normal
import DocumentCodec.Proofs.Running
import Mathlib.Algebra.GroupWithZero.Nat
/-!
# What is recalled of a value

Decoding what was encoded need not give the normal form, and need not succeed: a factory may refuse
an object or make another, an embedded record may bear the mark of an object, a day may begin before
the first instant, and a length may be too large for a reader.  What a decoding makes of a value is
*recalled* from the value alone: it depends neither on the bytes nor on where they stand.

Recalling follows the writers, level by level.  It fails where the decoding does, and it hands on
the targets that the resolver was asked for while the value was written.
-/

namespace DocumentCodec

/-- A computation that recalls what was written, given the targets that the resolver was asked for
before. -/
abbrev Recalling := StateT (List LinkTarget) Option

/-- Recalls a value that was written under a tag; `linked` is the type that a schema declares for
the elements of a collection. -/
abbrev BodyRecall :=
  (tag : TypeTag) → (linked : Option TypeTag) → (value : Value) → Recalling Value

namespace Recalling

variable {α β : Type} {earlier mid last : List LinkTarget}

/-- An answer that needs nothing but itself, if there is one. -/
def answer : Option α → Recalling α
  | some a => pure a
  | none => failure

/-- What is asked of the resolver while a value is written never fails once it is written. -/
def asking (ask : Asking α) : Recalling α := fun earlier => some (ask earlier)

/-- An answer that is already there is recalled as it is, and the resolver is not asked. -/
theorem answer_eq_some {found : Option α} {a : α} :
    answer found earlier = some (a, last) ↔ found = some a ∧ last = earlier := by
  cases found with
  | none => exact ⟨fun run => (by cases run), fun same => (by cases same.1)⟩
  | some b =>
    constructor
    · intro run
      cases run
      exact ⟨rfl, rfl⟩
    · rintro ⟨same, rfl⟩
      cases same
      rfl

/-- A sequence goes on with what its first part recalled. -/
theorem run_bind {x : Recalling α} {f : α → Recalling β} {a : α}
    (first : x earlier = some (a, mid)) : (x >>= f) earlier = f a mid := by
  show (x earlier >>= fun p => f p.1 p.2) = f a mid
  rw [first]
  rfl

/-- A sequence recalls something just if both its parts do, the second with all that the first has
asked. -/
theorem run_bind_eq_some {x : Recalling α} {f : α → Recalling β} {b : β} :
    (x >>= f) earlier = some (b, last)
      ↔ ∃ a mid, x earlier = some (a, mid) ∧ f a mid = some (b, last) := by
  constructor
  · intro run
    cases first : x earlier with
    | none =>
      have run : (x earlier >>= fun p => f p.1 p.2) = some (b, last) := run
      rw [first] at run
      cases run
    | some p =>
      obtain ⟨a, mid⟩ := p
      rw [run_bind first] at run
      exact ⟨a, mid, rfl, run⟩
  · rintro ⟨a, mid, first, second⟩
    rw [run_bind first, second]

/-- Where nothing is recalled first, nothing is recalled of a sequence. -/
theorem run_bind_of_none {x : Recalling α} (f : α → Recalling β) (first : x earlier = none) :
    (x >>= f) earlier = none := by
  show (x earlier >>= fun p => f p.1 p.2) = none
  rw [first]
  rfl

/-- Where a sequence succeeds, so does its first part. -/
theorem isSome_left {x : Recalling α} {f : α → Recalling β}
    (both : ((x >>= f) earlier).isSome = true) : (x earlier).isSome = true := by
  obtain ⟨⟨b, last⟩, run⟩ := Option.isSome_iff_exists.mp both
  obtain ⟨a, mid, first, -⟩ := run_bind_eq_some.mp run
  rw [first]
  rfl

/-- What is made of a recalled value is recalled with it. -/
theorem run_pure_bind_map {x : Recalling α} {wrap : α → β} {a : α}
    (run : x earlier = some (a, last)) :
    (x >>= fun a => pure (wrap a)) earlier = some (wrap a, last) := by
  rw [run_bind run]
  rfl

/-! ### Lists -/

/-- A list is recalled element by element, in order. -/
theorem run_mapM_cons {f : α → Recalling β} {a : α} {rest : List α} {bs : List β} :
    (a :: rest).mapM f earlier = some (bs, last) ↔ ∃ b mid later, f a earlier = some (b, mid) ∧
      rest.mapM f mid = some (later, last) ∧ bs = b :: later := by
  rw [List.mapM_cons, run_bind_eq_some]
  constructor
  · rintro ⟨b, mid, first, run⟩
    obtain ⟨later, mid', run, same⟩ := run_bind_eq_some.mp run
    cases same
    exact ⟨b, mid, later, first, run, rfl⟩
  · rintro ⟨b, mid, later, first, run, rfl⟩
    exact ⟨b, mid, first, run_pure_bind_map run⟩

/-- Asking for each thing is asking for them all. -/
theorem mapM_asking (ask : α → Asking β) (items : List α) :
    items.mapM (fun item => asking (ask item)) = asking (items.mapM ask) := by
  induction items with
  | nil => rfl
  | cons item rest ih =>
    rw [List.mapM_cons, List.mapM_cons, ih]
    rfl

/-- Things that are recalled alike one by one are recalled alike together. -/
theorem mapM_congr {f g : α → Recalling β} : ∀ {items : List α}, (∀ a ∈ items, f a = g a) →
    items.mapM f = items.mapM g := by
  intro items
  induction items with
  | nil =>
    intro same
    rfl
  | cons a rest ih =>
    intro same
    rw [List.mapM_cons, List.mapM_cons, same a List.mem_cons_self,
      ih fun other there => same other (List.mem_cons_of_mem _ there)]

/-- Where nothing is asked for, each thing is recalled on its own. -/
theorem run_mapM_of_forall {f : α → Recalling β} {g : α → β} : ∀ items : List α,
    (∀ a ∈ items, f a earlier = some (g a, earlier)) →
    items.mapM f earlier = some (items.map g, earlier) := by
  intro items
  induction items with
  | nil =>
    intro each
    rfl
  | cons a rest ih =>
    intro each
    exact run_mapM_cons.mpr ⟨_, _, _, each a List.mem_cons_self,
      ih fun other there => each other (List.mem_cons_of_mem _ there), rfl⟩

/-- What keeps a key of each thing keeps the keys of them all. -/
theorem map_mapM {γ : Type} {f : α → Recalling β} {key : α → γ} {key' : β → γ}
    (keeps : ∀ a {earlier last made}, f a earlier = some (made, last) → key' made = key a) :
    ∀ (items : List α) {earlier last : List LinkTarget} {made : List β},
    items.mapM f earlier = some (made, last) → made.map key' = items.map key := by
  intro items
  induction items with
  | nil =>
    intro earlier last made run
    cases run
    rfl
  | cons a rest ih =>
    intro earlier last made run
    obtain ⟨b, mid, later, first, others, rfl⟩ := run_mapM_cons.mp run
    rw [List.map_cons, List.map_cons, keeps a first, ih others]

/-- What keeps the keys of a map keeps their order. -/
theorem ascending_mapM {f : String × α → Recalling (String × β)}
    (keeps : ∀ entry {earlier last made}, f entry earlier = some (made, last) → made.1 = entry.1)
    {entries : List (String × α)} {made : List (String × β)}
    (ordered : OrderedMap.Ascending entries) (run : entries.mapM f earlier = some (made, last)) :
    OrderedMap.Ascending made := by
  have same : made.map (·.1) = entries.map (·.1) := map_mapM keeps entries run
  have sorted : (entries.map (·.1)).Pairwise (· < ·) := List.pairwise_map.mpr ordered
  rw [← same] at sorted
  exact List.pairwise_map.mp sorted

end Recalling

/-- The tags of numbers, truth values and instants, but not of days. -/
def TypeTag.isPlain : TypeTag → Bool
  | .integer | .long | .short | .byte | .boolean | .float | .double | .dateTime | .decimal => true
  | _ => false

namespace Recall

/-! ## Lengths and text

A length of 2^31 or more is written as it is and refused when it is read, so it is not recalled. -/

/-- A length or a count; a reader takes it only if it is a signed 32-bit word. -/
def length (n : Nat) : Recalling Nat := if n < 2 ^ 31 then return n else failure

/-- A length is recalled just if it is below 2^31. -/
theorem length_eq_some {n count : Nat} {earlier last : List LinkTarget} :
    length n earlier = some (count, last) ↔ n < 2 ^ 31 ∧ count = n ∧ last = earlier := by
  rw [length]
  split
  · next narrow =>
    constructor
    · intro run
      cases run
      exact ⟨narrow, rfl, rfl⟩
    · rintro ⟨-, rfl, rfl⟩
      rfl
  · next wide =>
    constructor
    · intro run
      cases run
    · rintro ⟨narrow, -⟩
      exact absurd narrow wide

/-- Bytes behind their number. -/
def binary (bytes : List UInt8) : Recalling (List UInt8) := do
  let _ ← length bytes.length
  return bytes

/-- Bytes are recalled just if there are fewer than 2^31 of them. -/
theorem binary_eq_some {bytes made : List UInt8} {earlier last : List LinkTarget} :
    binary bytes earlier = some (made, last)
      ↔ bytes.length < 2 ^ 31 ∧ made = bytes ∧ last = earlier := by
  rw [binary, Recalling.run_bind_eq_some]
  constructor
  · rintro ⟨count, mid, counted, same⟩
    obtain ⟨narrow, -, rfl⟩ := length_eq_some.mp counted
    cases same
    exact ⟨narrow, rfl, rfl⟩
  · rintro ⟨narrow, rfl, rfl⟩
    exact ⟨_, _, length_eq_some.mpr ⟨narrow, rfl, rfl⟩, rfl⟩

/-- Text behind its length in bytes. -/
def string (text : String) : Recalling String := do
  let _ ← binary (Utf8.encode text)
  return text

/-- Text is recalled just if its bytes are. -/
theorem string_eq_some {text made : String} {earlier last : List LinkTarget} :
    string text earlier = some (made, last)
      ↔ (Utf8.encode text).length < 2 ^ 31 ∧ made = text ∧ last = earlier := by
  rw [string, Recalling.run_bind_eq_some]
  constructor
  · rintro ⟨bytes, mid, taken, same⟩
    obtain ⟨narrow, -, rfl⟩ := binary_eq_some.mp taken
    cases same
    exact ⟨narrow, rfl, rfl⟩
  · rintro ⟨narrow, rfl, rfl⟩
    exact ⟨_, _, binary_eq_some.mpr ⟨narrow, rfl, rfl⟩, rfl⟩

variable (context : Context)

/-! ## Values that hold no others

Days and objects of the application may be lost.  A link is recalled as the identity that is stored
for it, and the resolver is asked in the order of writing. -/

/-- A day, as the instant at which it begins. -/
def date (millis : Int64) : Recalling Value := do
  let zone := context.options.zone
  return .date (← Recalling.answer (zone.startOfDay? (zone.dayNumber millis)))

/-- A list of links. -/
def links (items : List (Option LinkTarget)) : Recalling (List (Option LinkTarget)) := do
  let _ ← length items.length
  Recalling.asking (items.mapM (normalLink context))

/-- An entry of a map of links. -/
def linkEntry (entry : String × Option LinkTarget) : Recalling (String × Option LinkTarget) := do
  let key ← string entry.1
  let link ← Recalling.asking (normalLink context entry.2)
  return (key, link)

variable {context} in
/-- The entry of a map of links keeps its key. -/
theorem linkEntry_key (entry : String × Option LinkTarget) {earlier last : List LinkTarget}
    {made : String × Option LinkTarget}
    (run : linkEntry context entry earlier = some (made, last)) : made.1 = entry.1 := by
  obtain ⟨key, mid, taken, run⟩ := Recalling.run_bind_eq_some.mp run
  obtain ⟨-, rfl, -⟩ := string_eq_some.mp taken
  obtain ⟨link, mid', -, same⟩ := Recalling.run_bind_eq_some.mp run
  cases same
  rfl

/-- A map of links. -/
def linkMap (entries : List (String × Option LinkTarget)) :
    Recalling (List (String × Option LinkTarget)) := do
  let _ ← length entries.length
  entries.mapM (linkEntry context)

/-- An opaque object, as the one that the factory makes. -/
def custom (typeName : String) (stream : List UInt8) : Recalling Value := do
  let name ← string typeName
  let content ← binary stream
  let registry ← Recalling.answer context.registry
  let object ← Recalling.answer (registry.makeCustom name content).toOption
  return .custom object.typeName object.stream

/-- A value that was written under a tag whose bodies hold no further bodies. -/
def scalar (tag : TypeTag) (value : Value) : Recalling Value :=
  match tag, value with
  | .string, .string text => return .string (← string text)
  | .binary, .binary bytes => return .binary (← binary bytes)
  | .linkBag, .linkBag bytes => return .linkBag (← binary bytes)
  | .date, value => do date context (← Recalling.answer value.millis?)
  | .link, .link target =>
    return .link (.identity (← Recalling.asking (target.stored context)))
  | .link, .embedded record =>
    return .link (.identity (← Recalling.asking ((LinkTarget.record record).stored context)))
  | .linkList, .linkList items | .linkList, .linkSet items =>
    return .linkList (← links context items)
  | .linkSet, .linkList items | .linkSet, .linkSet items =>
    return .linkSet (← links context items)
  | .linkMap, .linkMap entries => return .linkMap (← linkMap context entries)
  | .custom, .custom typeName stream => custom context typeName stream
  | tag, value => return value.retagged context.options.zone tag

variable {context} {value : Value} {v : Int64}

/-- What was written under one of these tags is recalled for sure. -/
theorem scalar_plain {tag : TypeTag} (plain : tag.isPlain = true) :
    scalar context tag value = pure (value.retagged context.options.zone tag) := by
  cases tag with
  | integer | long | short | byte | boolean | float | double | dateTime | decimal => rfl
  | _ => cases plain

/-- Text that is recalled is the text that was written. -/
theorem scalar_text {tag : TypeTag} {text : String} {made : Value} {earlier last : List LinkTarget}
    (run : scalar context tag (.string text) earlier = some (made, last)) :
    made = .string text := by
  cases tag with
  | string =>
    obtain ⟨same, mid, taken, rest⟩ := Recalling.run_bind_eq_some.mp run
    obtain ⟨-, rfl, -⟩ := string_eq_some.mp taken
    cases rest
    rfl
  | date => cases run
  | _ => exact (congrArg Prod.fst (Option.some.inj run)).symm

theorem scalar_short (number : value.int64? = some v) :
    scalar context .short value = pure (.short v.toInt16) := by
  show pure (value.retagged _ .short) = _
  rw [Value.retagged_short number]

theorem scalar_integer (number : value.int64? = some v) :
    scalar context .integer value = pure (.integer v.toInt32) := by
  show pure (value.retagged _ .integer) = _
  rw [Value.retagged_integer number]

theorem scalar_long (number : value.int64? = some v) :
    scalar context .long value = pure (.long v) := by
  show pure (value.retagged _ .long) = _
  rw [Value.retagged_long number]

theorem scalar_dateTime {millis : Int64} (instant : value.millis? = some millis) :
    scalar context .dateTime value = pure (.dateTime millis) := by
  show pure (value.retagged _ .dateTime) = _
  rw [Value.retagged_dateTime instant]

/-- A day is recalled from the milliseconds alone, whether the value was an instant, a day or a
number. -/
theorem scalar_date {millis : Int64} (instant : value.millis? = some millis) :
    scalar context .date value = date context millis := by
  show (Recalling.answer value.millis? >>= fun millis => date context millis) = _
  rw [instant]
  rfl

variable (context)

/-! ## Values that hold others, given how those one level deeper are recalled -/

/-- What is in a slot: the tag and the value of a body, or nothing for a null value. -/
def slot (inner : TypeTag → Recalling Value) (value : Value) (tag : Except Unsupported TypeTag) :
    Recalling (Option (TypeTag × Value)) :=
  inSlot value tag (return none) fun tag => return some (tag, ← inner tag)

/-- An element. -/
def item (inner : BodyRecall) (linked : Option TypeTag) (item : Value) : Recalling Value :=
  inSlot item (itemTag linked item) (return .null) fun tag => inner tag none item

/-- The elements of a list or set, but those left out. -/
def items (inner : BodyRecall) (linked : Option TypeTag) (items : List Value) :
    Recalling (List Value) := do
  let kept := items.filter (!·.isTransient)
  let _ ← length kept.length
  kept.mapM (item inner linked)

/-- A member of a map. -/
def member (inner : BodyRecall) (member : String × Value) : Recalling (String × Value) := do
  let key ← string member.1
  let held ← slot (fun tag => inner tag none member.2) member.2 (memberTag member.2)
  return (key, (held.map (·.2)).getD .null)

/-- The member of a map keeps its key. -/
theorem member_key {inner : BodyRecall} (pair : String × Value) {earlier last : List LinkTarget}
    {made : String × Value} (run : member inner pair earlier = some (made, last)) :
    made.1 = pair.1 := by
  obtain ⟨key, mid, taken, run⟩ := Recalling.run_bind_eq_some.mp run
  obtain ⟨-, rfl, -⟩ := string_eq_some.mp taken
  obtain ⟨held, mid', -, same⟩ := Recalling.run_bind_eq_some.mp run
  cases same
  rfl

/-- The members of a map, but those left out. -/
def members (inner : BodyRecall) (members : List (String × Value)) :
    Recalling (List (String × Value)) := do
  let kept := members.filter (!·.2.isTransient)
  let _ ← length kept.length
  kept.mapM (member inner)

/-- The name of a field, where it is not written as a property id. -/
def heading (className : Option String) (name : String) : Recalling Unit :=
  match Encoding.property? context className name with
  | some _ => return ()
  | none => do let _ ← length (Utf8.encode name).length

variable {context} in
/-- The heading of a field asks the resolver for nothing. -/
theorem heading_eq_some {className : Option String} {name : String} {made : Unit}
    {earlier last : List LinkTarget}
    (run : heading context className name earlier = some (made, last)) : last = earlier := by
  rw [heading] at run
  cases known : Encoding.property? context className name with
  | some property =>
    rw [known] at run
    cases run
    rfl
  | none =>
    rw [known] at run
    obtain ⟨count, mid, counted, same⟩ := Recalling.run_bind_eq_some.mp run
    cases same
    exact (length_eq_some.mp counted).2.2

/-- A field, with the tag that it was written under. -/
def field (inner : BodyRecall) (className : Option String) (field : Field) : Recalling Field := do
  heading context className field.name
  let held ← slot (fun tag => inner tag (linkedTag context className field.name) field.value)
    field.value (Encoding.fieldTag field (pinnedTag context className field.name))
  return ⟨field.name, (held.map (·.2)).getD .null, held.map (·.1)⟩

/-- A record: its class name and its fields, but those left out. -/
def record (inner : BodyRecall) (record : Record) : Recalling Record := do
  let className ← string (record.className.getD "")
  let fields ← (record.fields.filter (!Encoding.isOmitted ·)).mapM
    (field context inner record.className)
  return { Binder.named className Record.new with fields := fields }

/-- What an embedded record is taken for: an object, if it is marked as one, and else a record. -/
def embed (record : Record) : Option Value :=
  match record.field? Record.serializableClassField with
  | some (.string className) => do
    let registry ← context.registry
    let object ← (registry.makeSerializable className
      (record.remove Record.serializableClassField).2).toOption
    return .serializable object.className object.record
  | _ => return .embedded { record with isEmbedded := true }

variable {context} in
/-- A record that no string marks stays one. -/
theorem embed_of_unmarked {record : Record} (unmarked : ∀ field ∈ record.fields,
      field.name = Record.serializableClassField → field.value.text? = none) :
    embed context record = some (.embedded { record with isEmbedded := true }) := by
  rw [embed]
  split
  · next className marked =>
    obtain ⟨field, found, held⟩ := Option.map_eq_some_iff.mp marked
    have found : record.fields.find? (·.name = Record.serializableClassField) = some field := found
    have there : field ∈ record.fields := List.mem_of_find?_eq_some found
    have named : field.name = Record.serializableClassField :=
      of_decide_eq_true (List.find?_some (p := fun field : Field =>
        decide (field.name = Record.serializableClassField)) found)
    have text := unmarked field there named
    rw [held] at text
    cases text
  · rfl

/-- A record that was written as part of another, or an object as the record that stands for it. -/
def embedded (inner : BodyRecall) (written : Record) : Recalling Value := do
  let made ← record context inner written
  Recalling.answer (embed context made)

/-! ## Level by level

Recalling goes down the levels as writing does, and recalls nothing of a container where no level is
left. -/

/-- A value that was written under a tag, given how those one level deeper are recalled. -/
def bodyWith (inner : Option BodyRecall) : BodyRecall := fun tag linked value =>
  let deeper (remember : BodyRecall → Recalling Value) : Recalling Value :=
    match inner with
    | none => failure
    | some inner => remember inner
  match tag, value with
  | .embedded, .embedded record => deeper fun inner => embedded context inner record
  | .embedded, .serializable className record =>
    deeper fun inner => embedded context inner (Encoding.markedRecord className record)
  | .embeddedList, .embeddedList elements | .embeddedList, .embeddedSet elements =>
    deeper fun inner => return .embeddedList (← items inner linked elements)
  | .embeddedSet, .embeddedList elements | .embeddedSet, .embeddedSet elements =>
    deeper fun inner => return .embeddedSet (← items inner linked elements)
  | .embeddedMap, .embeddedMap pairs =>
    deeper fun inner => return .embeddedMap (← members inner pairs)
  | _, _ => scalar context tag value

variable {context} in
/-- Bodies that hold no others are recalled alike at every level. -/
theorem bodyWith_flat {tag : TypeTag} (flat : tag.isContainer = false) (inner : Option BodyRecall)
    (linked : Option TypeTag) (value : Value) :
    bodyWith context inner tag linked value = scalar context tag value := by
  cases tag with
  | embedded => cases flat
  | embeddedList => cases flat
  | embeddedSet => cases flat
  | embeddedMap => cases flat
  | _ => rfl

/-- A value that was written under a tag, with `room` levels left for containers. -/
def body : (room : Nat) → BodyRecall
  | 0 => bodyWith context none
  | room + 1 => bodyWith context (some (body room))

end Recall

/-- What a decoding makes of the encoding of a record. -/
def Record.recalled (context : Context) (record : Record) : Recalling Record :=
  Recall.record context (Recall.body context context.options.maxDepth) record

end DocumentCodec
