import DocumentCodec.Proofs.Storing.Container
/-!
# Whatever is read can be stored again

Readers take more than an encoder writes: numbers in more bytes than they need, elements without
tags of their own, bodies that lie across each other, entries of one name or key.  Whatever they
make of it is kept, and takes less than twice the bytes that were handed out for it; so a record
that was read from fewer than `2 ^ 29` bytes has room below the last offset that a slot can hold.
-/

namespace DocumentCodec

namespace Decoding

/-- A reader of bodies that can be stored again. -/
def StoredReader (maxDepth : Nat) (write : BodyWriter) (remember : BodyRecall) (input : List UInt8)
    (read : BodyReader) : Prop :=
  ∀ tag, Metered input (read tag) (Fetched maxDepth write remember tag)

section Containers

variable {maxDepth : Nat} {write : BodyWriter} {remember : BodyRecall} {input : List UInt8}
  {inner : BodyReader} (stored : StoredReader maxDepth write remember input inner)
include stored

/-! ## Slots

A slot is written in as many bytes as it was read in.  Its body is paid for each time that it is
read, wherever the pointer leads. -/

/-- What is in a slot is kept, and the tag of a body is the one of its kind. -/
theorem slot_bulk : Metered input (readSlot input inner none) fun spent placed =>
    Slot.openSize + (Placed.valueOf placed).bulk ≤ 2 * spent ∧
      Kept maxDepth write remember (Placed.valueOf placed) ∧
      ((Placed.valueOf placed).isNull = false →
        placed.map (·.tag) = (Placed.valueOf placed).naturalTag) := by
  refine Metered.checked Metered.word32 fun start pointer spent four => ?_
  refine (metered_slotTag none).bind fun tag more size => ?_
  have size : 4 + more = 5 := size
  split
  · refine Metered.pure ⟨?_, .null, fun notNull => by cases notNull⟩
    show 5 + 0 ≤ 2 * (spent + (more + 0))
    omega
  · split
    · exact Metered.malformed
    · refine (metered_at (stored tag) _).map fun body placed fact => ?_
      obtain ⟨place, value, last⟩ := placed
      obtain ⟨rfl, fetched⟩ := fact
      cases fetched with
      | null bodiless =>
        -- the pointer may be to any place: a tag without a body takes no byte of it
        refine ⟨?_, .null, fun notNull => by cases notNull⟩
        show 5 + 0 ≤ 2 * (spent + (more + body))
        omega
      | stored storable light =>
        have light : value.bulk < 2 * body := light
        refine ⟨?_, .stored storable, fun _ => storable.natural.symm⟩
        show 5 + value.bulk ≤ 2 * (spent + (more + body))
        omega

/-! ## Lists, sets and maps

An element of a list that declares one tag for all is read without a tag and written with one.  It
has a byte at least, so twice its bytes are enough. -/

/-- An element may lack a tag of its own; then its body has at least one byte. -/
theorem item_bulk {declared : TypeTag} (some : declared ≠ .transient) :
    Metered input (readItem input inner declared) fun spent item =>
      1 + item.bulk ≤ 2 * spent ∧ Kept maxDepth write remember item := by
  by_cases any : declared = .any
  · subst any
    refine Metered.tag.bind fun tag spent one => ?_
    split
    · refine Metered.pure ⟨?_, .null⟩
      show 1 + 0 ≤ 2 * (spent + 0)
      omega
    · refine (stored tag).mono fun more item fetched => ?_
      cases fetched with
      | null bodiless =>
        refine ⟨?_, .null⟩
        show 1 + 0 ≤ 2 * (spent + more)
        omega
      | stored storable light => exact ⟨by omega, .stored storable⟩
  · -- the tag stands once for all elements, and each is its body alone; of the tags whose bodies
    -- have no bytes one was split off, and the other is excluded
    have own : readItem input inner declared = inner declared := by
      rw [readItem, readItemTag, if_neg any, pure_bind, if_neg any]
    rw [own]
    refine (stored declared).mono fun spent item fetched => ?_
    cases fetched with
    | null bodiless =>
      cases declared <;> first | exact absurd rfl any | exact absurd rfl some | cases bodiless
    | stored storable light => exact ⟨by omega, .stored storable⟩

/-- The elements that are read of a list can be kept, and their bulk is at most twice the bytes that
were handed out for them. -/
theorem items_bulk : Metered input (readItems input inner) fun spent items =>
    countBulk items.length + 1 + bulkOfItems items < 2 * spent ∧ items.length < 2 ^ 31 ∧
      ∀ item ∈ items, Kept maxDepth write remember item := by
  refine Metered.length_bulk.bind fun count spent fact => ?_
  refine Metered.checked Metered.tag fun start declared one single => ?_
  split
  · exact Metered.malformed
  · next some =>
    -- twice the bytes of an element pay for the element and for a tag of its own
    refine ((item_bulk stored some).times_counted (q := fun spent items =>
      bulkOfItems items ≤ 2 * spent ∧ ∀ item ∈ items, Kept maxDepth write remember item)
      ⟨Nat.le_refl 0, fun _ none => by cases none⟩
      (fun first item later rest one others => ?_) count).mono fun more items facts => ?_
    · rw [bulkOfItems]
      exact ⟨by omega, List.forall_mem_cons.mpr ⟨one.2, others.2⟩⟩
    · obtain ⟨rfl, light, kept⟩ := facts
      have number := countBulk_le fact.1 fact.2.1
      exact ⟨by omega, fact.2.2, kept⟩

/-- So can a member of a map, with its key. -/
theorem member_bulk : Metered input (readMember input inner) fun spent member =>
    (Encoding.keyBytes member.1).length + Slot.openSize + (Placed.valueOf member.2).bulk
        ≤ 2 * spent ∧
      (Utf8.encode member.1).length < 2 ^ 31 ∧
      Kept maxDepth write remember (Placed.valueOf member.2) := by
  refine mapKey_bulk.bind fun key spent keyed => (slot_bulk stored).map fun more placed slot => ?_
  refine ⟨?_, keyed.2, slot.2.1⟩
  show (Encoding.keyBytes key).length + Slot.openSize + (Placed.valueOf placed).bulk ≤ _
  omega

/-- Members with one key fall together, which only makes the map lighter. -/
theorem map_bulk : Metered input (readMap input inner) fun spent pairs =>
    countBulk pairs.length + bulkOfMembers pairs < 2 * spent ∧ pairs.length < 2 ^ 31 ∧
      OrderedMap.Ascending pairs ∧ ∀ pair ∈ pairs,
        (Utf8.encode pair.1).length < 2 ^ 31 ∧ Kept maxDepth write remember pair.2 := by
  let valued : String × Option Placed → String × Value :=
    fun member => (member.1, Placed.valueOf member.2)
  let good : String × Value → Prop := fun pair =>
    (Utf8.encode pair.1).length < 2 ^ 31 ∧ Kept maxDepth write remember pair.2
  refine Metered.length_bulk.bind fun count spent fact => ?_
  refine ((member_bulk stored).times_counted (q := fun spent members =>
    bulkOfMembers (members.map valued) ≤ 2 * spent ∧ ∀ pair ∈ members.map valued, good pair)
    ⟨Nat.le_refl 0, fun _ none => by cases none⟩
    (fun first member later rest one others => ?_) count).bind fun members more facts => ?_
  · rw [List.map_cons, bulkOfMembers]
    exact ⟨by omega, List.forall_mem_cons.mpr ⟨one.2, others.2⟩⟩
  · refine (metered_finish _).map fun rest _ free => ?_
    obtain ⟨counted, light, each⟩ := facts
    -- the bound is for the members as they were read, and those that are left are among them
    have lighter := OrderedMap.sum_ofList_le
      (fun pair => (Encoding.keyBytes pair.1).length + Slot.openSize + pair.2.bulk)
      (members.map valued)
    rw [← bulkOfMembers_eq, ← bulkOfMembers_eq] at lighter
    have fewer := OrderedMap.length_ofList_le (members.map valued)
    rw [List.length_map, counted] at fewer
    have number := countBulk_le fact.1 (Nat.lt_of_le_of_lt fewer fact.2.1)
    show countBulk (OrderedMap.ofList (members.map valued)).length
        + bulkOfMembers (OrderedMap.ofList (members.map valued)) < _ ∧
      (OrderedMap.ofList (members.map valued)).length < _ ∧ _
    exact ⟨by omega, by omega, OrderedMap.ascending_ofList _,
      fun pair there => each pair (OrderedMap.mem_of_mem_ofList there)⟩

end Containers

/-! ## Records

A field whose name is there already is paid for and not kept, so what is kept costs no more than was
handed out. -/

/-- Without a schema an entry of a header has a name of its own. -/
theorem heading_bulk {maxDepth : Nat} {input : List UInt8} :
    Metered input (readHeading (Context.bare maxDepth) input) fun spent heading => 0 < spent ∧
      ∀ found, heading = some found → found.pinned = none ∧ found.name ≠ "" ∧
        (Utf8.encode found.name).length < 2 ^ 31 ∧
        stringBulk (Utf8.encode found.name).length ≤ spent := by
  refine Metered.checked Metered.varint32_bulk fun start lead spent spelled => ?_
  dsimp only
  split
  · exact Metered.pure ⟨spelled.1, fun found none => by cases none⟩
  · split
    · next positive =>
      refine (Metered.take _).bind fun bytes more taken => ?_
      cases read : Utf8.decode bytes with
      | error cause => exact Metered.malformed
      | ok name =>
        refine Metered.pure ⟨by omega, fun found same => ?_⟩
        cases same
        -- the length was read as a varint of some bytes, and the shortest one has no more
        have narrow := Int32.toInt_lt lead
        rw [Signed.toNat_toUInt64 (by omega)] at spelled
        have number := countBulk_le spelled.1 spelled.2
        have size : (Utf8.encode name).length = lead.toInt.toNat := by
          rw [Utf8.encode_of_decode read, taken.2]
        refine ⟨rfl, ?_, ?_, ?_⟩
        · rintro rfl
          have none : (Utf8.encode "").length = 0 := rfl
          omega
        · show (Utf8.encode name).length < _
          omega
        · show countBulk (Utf8.encode name).length + (Utf8.encode name).length ≤ _
          rw [size]
          omega
    · exact Metered.throw

/-- Fields were added that are kept, with names that were not there; and what it takes to end the
header is paid for besides. -/
def KeptFields (maxDepth : Nat) (write : BodyWriter) (remember : BodyRecall) (target : Record)
    (spent : Nat) (made : Record) : Prop :=
  ∃ added, Grown target made added ∧ bulkOfFields added + 1 ≤ 2 * spent ∧
    (∀ field ∈ added, KeptField maxDepth write remember field) ∧
    (target.fieldNames.Nodup → made.fieldNames.Nodup)

namespace KeptFields

variable {maxDepth : Nat} {write : BodyWriter} {remember : BodyRecall} {target made : Record}
  {spent more : Nat}

/-- A target that nothing was added to. -/
theorem refl (positive : 0 < spent) : KeptFields maxDepth write remember target spent target := by
  refine ⟨[], Grown.refl target, ?_, fun field none => ?_, id⟩
  · rw [bulkOfFields]
    omega
  · cases none

theorem mono (fields : KeptFields maxDepth write remember target spent made) (le : spent ≤ more) :
    KeptFields maxDepth write remember target more made := by
  obtain ⟨added, grown, light, kept, distinct⟩ := fields
  exact ⟨added, grown, by omega, kept, distinct⟩

/-- One field more, that was not there before. -/
theorem bind {later : Nat} {name : String} {value : Value} {pinned : Option TypeTag}
    (fresh : target.contains name = false)
    (light : stringBulk (Utf8.encode name).length + Slot.openSize + value.bulk ≤ 2 * spent)
    (kept : KeptField maxDepth write remember ⟨name, value, pinned⟩)
    (rest : KeptFields maxDepth write remember (target.bind name value pinned) later made) :
    KeptFields maxDepth write remember target (spent + later) made := by
  obtain ⟨added, grown, light', kept', distinct⟩ := rest
  refine ⟨_, grown.bind, ?_, List.forall_mem_cons.mpr ⟨kept, kept'⟩, fun before => distinct ?_⟩
  · rw [bulkOfFields]
    omega
  · exact Record.nodup_append target name value pinned before fresh

end KeptFields

section Records

variable {maxDepth : Nat} {write : BodyWriter} {remember : BodyRecall} {input : List UInt8}
  {inner : BodyReader} (stored : StoredReader maxDepth write remember input inner)
include stored

/-- The induction is on the room for entries; an entry of a name that is there is stepped over. -/
theorem fields_bulk : ∀ (entries last bound : Nat) (target : Record),
    Metered input
      (readFieldsInto (Context.bare maxDepth) input inner none entries last bound target)
      fun spent made => KeptFields maxDepth write remember target spent made.2 := by
  intro entries
  induction entries with
  | zero =>
    intro last bound target
    rw [readFieldsInto_zero]
    exact (Metered.offset (p := fun _ _ => True) fun _ => trivial).bind fun start _ _ =>
      Metered.malformed
  | succ entries ih =>
    intro last bound target
    rw [readFieldsInto_succ]
    refine heading_bulk.bind fun heading spent fact => ?_
    cases heading with
    | none => exact Metered.pure (.refl fact.1)
    | some heading =>
      obtain ⟨unpinned, named, narrow, light⟩ := fact.2 heading rfl
      obtain ⟨name, pinned⟩ := heading
      cases unpinned
      dsimp only at named narrow light ⊢
      split
      · refine (Metered.skip _).bind fun _ more _ => ?_
        exact (ih last bound target).mono fun later made fields => fields.mono (by omega)
      · -- name, slot and value stay below twice the bytes that the heading and the slot took
        next wanted =>
        have fresh : target.contains name = false := (Bool.or_eq_false_iff.mp
          (Bool.eq_false_iff.mpr wanted)).2
        refine (slot_bulk stored).bind fun placed more slot => ?_
        obtain ⟨size, kept, typed⟩ := slot
        refine (ih _ _ _).mono fun later made fields => ?_
        have one : stringBulk (Utf8.encode name).length + Slot.openSize
            + (Placed.valueOf placed).bulk ≤ 2 * (spent + more) := by omega
        rw [← Nat.add_assoc]
        exact KeptFields.bind fresh one ⟨kept, typed, named, narrow⟩ fields

/-- A new record that was read is kept, and takes less than twice the bytes. -/
theorem record_bulk : Metered input
    (readRecordInto (Context.bare maxDepth) input inner none Record.new) fun spent made =>
      KeptRecord maxDepth write remember made ∧ made.isEmbedded = false ∧ made.bulk < 2 * spent := by
  refine Metered.string_bulk.bind fun className spent fact => ?_
  obtain ⟨positive, light, narrow⟩ := fact
  refine (fields_bulk stored _ 0 0 _).bind fun made more fields => ?_
  refine (metered_finish made.1).map fun rest _ free => ?_
  obtain ⟨last, made⟩ := made
  obtain ⟨added, grown, light', kept, distinct⟩ := fields
  have distinct : made.fieldNames.Nodup := distinct <| by
    rw [Record.fieldNames, Binder.named_fields]
    exact List.nodup_nil
  -- of its own a new record gets the class name and the fields
  obtain ⟨name, rfl, classed, named⟩ : ∃ name, made = ⟨name, RecordId.empty, added, false⟩ ∧
      name ≠ some "" ∧ name.getD "" = className := by
    have grown : made = _ := grown
    rw [Binder.named_fields] at grown
    subst grown
    rw [Binder.named]
    split
    · next empty => exact ⟨none, rfl, by simp, (String.isEmpty_iff.mp empty).symm⟩
    · next nonempty =>
      refine ⟨some className, rfl, fun same => nonempty ?_, rfl⟩
      rw [Option.some.inj same]
      rfl
  -- the class name was read as a string, so it is as short as that
  refine ⟨⟨classed, ?_, rfl, distinct, kept⟩, rfl, ?_⟩
  · rw [named]
    exact narrow
  · rw [Record.bulk, named]
    omega

/-- What is read as an embedded record is no object, for without a registry there are none. -/
theorem embedded_bulk : Metered input (readEmbedded (Context.bare maxDepth) input inner)
    fun spent value => StorableAt maxDepth (.ok write) (some remember) .embedded value ∧
      value.bulk < 2 * spent := by
  rw [readEmbedded, onNew_readRecord]
  refine (record_bulk stored).bind fun record spent fact => ?_
  obtain ⟨kept, -, light⟩ := fact
  have owned (unmarked : ∀ text, record.field? Record.serializableClassField ≠ some (.string text)) :
      Metered input (pure (Value.embedded { record with isEmbedded := true }))
        fun more value => StorableAt maxDepth (.ok write) (some remember) .embedded value ∧
          value.bulk < 2 * (spent + more) := by
    refine Metered.pure ⟨.embedded kept fun field there named => ?_, ?_⟩
    · have found := Record.field?_of_mem kept.distinct there
      rw [named] at found
      cases held : field.value with
      | string text =>
        rw [held] at found
        exact absurd found (unmarked text)
      | _ => rfl
    · rw [record.bulk_eq] at light
      exact light
  cases marker : record.field? Record.serializableClassField with
  | none => exact owned fun text same => by rw [marker] at same; cases same
  | some value =>
    cases value with
    -- a record marked as an object would need the registry that is not there
    | string className => exact Metered.throw
    | _ => exact owned fun text same => by rw [marker] at same; cases same

end Records

/-! ## Level by level -/

/-- One level more of containers, given that what is read inside them can be stored. -/
theorem stored_bodyWith {maxDepth : Nat} {input : List UInt8} {inner : Except CodecError BodyReader}
    {inner' : Except CodecError BodyWriter} {remember : Option BodyRecall}
    (deeper : ∀ read, inner = .ok read → ∃ write inside, inner' = .ok write ∧
      remember = some inside ∧ StoredReader maxDepth write inside input read) :
    StoredReader maxDepth (Encoding.writeBodyWith (Context.bare maxDepth) inner')
      (Recall.bodyWith (Context.bare maxDepth) remember) input
      (readBodyWith (Context.bare maxDepth) input inner) := by
  intro tag
  cases flat : tag.isContainer with
  | false =>
    rw [readBodyWith_flat _ input flat]
    exact scalar_bulk tag flat
  | true =>
    cases inner with
    | error e => cases tag <;> first | exact Metered.throw | cases flat
    | ok read =>
      obtain ⟨write, inside, rfl, rfl, stored⟩ := deeper read rfl
      cases tag with
      | embedded => exact (embedded_bulk stored).mono fun _ _ fact => .stored fact.1 fact.2
      | embeddedList =>
        exact (items_bulk stored).map fun _ _ fact =>
          .stored (.embeddedList fact.2.1 fact.2.2) fact.1
      | embeddedSet =>
        exact (items_bulk stored).map fun _ _ fact =>
          .stored (.embeddedSet fact.2.1 fact.2.2) fact.1
      | embeddedMap =>
        exact (map_bulk stored).map fun _ _ fact =>
          .stored (.embeddedMap (fun pair there => (fact.2.2.2 pair there).2) fact.2.1 fact.2.2.1
            fun pair there => (fact.2.2.2 pair there).1) fact.1
      | _ => cases flat

/-- Every body that is read can be stored with as much room for containers. -/
theorem stored_body (maxDepth : Nat) (input : List UInt8) (room : Nat) :
    StoredReader maxDepth (Encoding.writeBody (Context.bare maxDepth) room)
      (Recall.body (Context.bare maxDepth) room) input
      (readBody (Context.bare maxDepth) input room) := by
  induction room with
  | zero => exact stored_bodyWith fun read none => by cases none
  | succ room ih =>
    refine stored_bodyWith fun read same => ⟨_, _, rfl, rfl, ?_⟩
    cases same
    exact ih

end Decoding
end DocumentCodec
