import DocumentCodec.Proofs.Bounded
import DocumentCodec.Proofs.RoundTrip.Scalar
import DocumentCodec.Proofs.Storing.Tidied
import DocumentCodec.Proofs.Writing
import DocumentCodec.Proofs.Zone
/-!
# Values without values inside, stored again

Whatever bytes a reader accepts, the value can be stored again under the tag it was read under, and
comes back as it is.  It takes no more bytes than were handed out for it, with one exception: a
decimal whose unscaled part has no bytes at all gets one.  So twice the bytes handed out are enough,
for that and for the tags that a list of one kind does not have.
-/

namespace DocumentCodec

/-- A context that consults nobody: no schema, no registry and no resolver, so that every identity
is stored as it is. -/
def Context.bare (maxDepth : Nat) : Context :=
  { options := { maxDepth := maxDepth, proxyStorage := true } }

/-- A value can be stored under a tag, in as many bytes as it is said to take, and what comes back
is the tidied value. -/
structure Storable (maxDepth : Nat) (write : BodyWriter) (remember : BodyRecall) (tag : TypeTag)
    (value : Value) : Prop where
  natural : value.naturalTag = some tag
  writes : ∀ (field : String) (start : Nat), start + value.bulk < 2 ^ 31 →
    ∃ bytes, bytes.length ≤ value.bulk ∧ Encoder.Writes (write field tag none value) start bytes
  recalls : ∀ earlier, remember tag none value earlier = some (value.tidied, earlier)
  readable : ∀ w ∈ value.written (Context.bare maxDepth) tag none, Readable w

/-- A value can be stored by the writer of a level, and is recalled on that level. -/
abbrev StorableAt (maxDepth : Nat) (inner : Except CodecError BodyWriter)
    (remember : Option BodyRecall) (tag : TypeTag) (value : Value) : Prop :=
  Storable maxDepth (Encoding.writeBodyWith (Context.bare maxDepth) inner)
    (Recall.bodyWith (Context.bare maxDepth) remember) tag value

/-- What a reader makes under a tag at a price: null where the tag has no bodies, and else a value
that can be stored in less than twice the bytes. -/
inductive Fetched (maxDepth : Nat) (write : BodyWriter) (remember : BodyRecall) (tag : TypeTag)
    (spent : Nat) : Value → Prop where
  | null (bodiless : tag.gift = 1) : Fetched maxDepth write remember tag spent .null
  | stored {value : Value} (storable : Storable maxDepth write remember tag value)
      (light : value.bulk < 2 * spent) : Fetched maxDepth write remember tag spent value

/-! ## Without a resolver

An identity is stored as it is, whatever it stands for. -/

section Links

variable {maxDepth : Nat} {earlier : List LinkTarget}

/-- Nobody is asked what a target stands for. -/
theorem LinkTarget.stored_bare (target : LinkTarget) :
    target.stored (Context.bare maxDepth) earlier = (target.rid, earlier) := by
  rw [LinkTarget.stored]
  split <;> rfl

/-- An identity is written as its two numbers. -/
theorem Link.writes_bare (rid : RecordId) (start : Nat) :
    Encoder.Writes (Link.write (Context.bare maxDepth) (.identity rid)) start (Link.idBytes rid) := by
  refine Link.writes_of_resolved fun earlier => ?_
  rw [Link.resolve]
  show (if Link.isPending rid = true then _ else _) = _
  split <;> rfl

/-- An element of a collection of links, as it is read: the identity set aside for an absent one is
no target. -/
def IsLinkElement (item : Option LinkTarget) : Prop :=
  ∀ target, item = some target → ∃ rid, target = .identity rid ∧ rid.isNullLink = false

namespace IsLinkElement

variable {item : Option LinkTarget} (element : IsLinkElement item)
include element

/-- An element is written as the identity that it has, or as the one set aside for none. -/
theorem writes (start : Nat) : Encoder.Writes (Link.writeElement (Context.bare maxDepth) item) start
    (linkBytes item) := by
  cases item with
  | none => exact fun _ => rfl
  | some target =>
    obtain ⟨rid, rfl, -⟩ := element target rfl
    exact Link.writes_bare rid start

/-- It is in normal form as it was read. -/
theorem normal : normalLink (Context.bare maxDepth) item earlier = (item, earlier) := by
  cases item with
  | none => rfl
  | some target =>
    obtain ⟨rid, rfl, present⟩ := element target rfl
    rw [normalLink, Asking.run_bind (LinkTarget.stored_bare _)]
    show (pure (if rid.isNullLink = true then none else some (LinkTarget.identity rid)) : Asking _) _
      = _
    rw [if_neg (Bool.eq_false_iff.mp present)]
    rfl

/-- A bare identity holds no record that could be out of order. -/
theorem formed : wellFormedLink item = true := by
  cases item with
  | none => rfl
  | some target =>
    obtain ⟨rid, rfl, -⟩ := element target rfl
    rfl

end IsLinkElement

end Links

/-! ## Each kind can be stored

A value that was read is one that its tag takes, so it can be written, and is recalled as it is. -/

namespace Storable

variable {maxDepth : Nat} {inner : Except CodecError BodyWriter} {remember : Option BodyRecall}

/-- A value that holds no others is written and recalled alike at every level. -/
theorem of_flat {tag : TypeTag} {value : Value} {bytes : List UInt8}
    (flat : tag.isContainer = false) (natural : value.naturalTag = some tag)
    (tidied : value.tidied = value)
    (alone : value.written (Context.bare maxDepth) tag none = [(tag, value)])
    (formed : value.isWellFormed = true) (size : bytes.length ≤ value.bulk)
    (writes : ∀ field start, Encoder.Writes
      (Encoding.writeScalar (Context.bare maxDepth) field tag value) start bytes)
    (recalls : ∀ earlier,
      Recall.scalar (Context.bare maxDepth) tag value earlier = some (value, earlier)) :
    StorableAt maxDepth inner remember tag value where
  natural := natural
  writes field start _ := by
    rw [Encoding.writeBodyWith_flat flat]
    exact ⟨bytes, size, writes field start⟩
  recalls earlier := by
    rw [Recall.bodyWith_flat flat, tidied]
    exact recalls earlier
  readable w there := by
    rw [alone] at there
    obtain rfl := List.mem_singleton.mp there
    -- only under the tag of embedded records is a record held
    refine ⟨formed, fun record holds => ?_⟩
    cases tag with
    | embedded => cases flat
    | _ => cases holds

/-- A value whose bytes are emitted at once and that is recalled as it is. -/
theorem of_emit {tag : TypeTag} {value : Value} {bytes : List UInt8}
    (flat : tag.isContainer = false) (natural : value.naturalTag = some tag)
    (tidied : value.tidied = value)
    (alone : value.written (Context.bare maxDepth) tag none = [(tag, value)])
    (formed : value.isWellFormed = true) (size : bytes.length ≤ value.bulk)
    (emits : ∀ field, Encoding.writeScalar (Context.bare maxDepth) field tag value
      = Encoder.emit bytes)
    (recalls : Recall.scalar (Context.bare maxDepth) tag value = pure value) :
    StorableAt maxDepth inner remember tag value := by
  refine of_flat flat natural tidied alone formed size (fun field start => ?_) fun earlier => ?_
  · rw [emits field]
    exact .emit bytes
  · rw [recalls]
    rfl

/-- A 32-bit number is in the range that the writer looks at. -/
theorem integer (v : Int32) :
    StorableAt maxDepth inner remember .integer (.integer v) := by
  have number : (Value.integer v).int64? = some v.toInt64 := rfl
  have fits : Encoding.inRange .integer v.toInt64 = true := by
    refine decide_eq_true ?_
    rw [Int32.toInt_toInt64]
    exact ⟨Int32.le_toInt v, Int.le_of_lt_add_one (Int32.toInt_lt v)⟩
  refine of_flat rfl rfl rfl rfl rfl (Nat.le_refl _)
    (fun field start => Encoding.writes_integer number fits) fun earlier => ?_
  rw [Recall.scalar_integer rfl, Int32.toInt32_toInt64]
  rfl

/-- So is a 16-bit number in its own. -/
theorem short (v : Int16) :
    StorableAt maxDepth inner remember .short (.short v) := by
  have number : (Value.short v).int64? = some v.toInt64 := rfl
  have fits : Encoding.inRange .short v.toInt64 = true := by
    refine decide_eq_true ?_
    rw [Int16.toInt_toInt64]
    exact ⟨Int16.le_toInt v, Int.le_of_lt_add_one (Int16.toInt_lt v)⟩
  refine of_flat rfl rfl rfl rfl rfl (Nat.le_refl _)
    (fun field start => Encoding.writes_integer number fits) fun earlier => ?_
  rw [Recall.scalar_short rfl, Int16.toInt16_toInt64]
  rfl

/-- The instant at which a day begins is written as the number of that day again. -/
theorem date {day millis : Int64}
    (begins : Zone.utc.startOfDay? day = some millis) (same : Zone.utc.dayNumber millis = day) :
    StorableAt maxDepth inner remember .date (.date millis) := by
  refine of_emit rfl rfl rfl rfl rfl (Nat.le_refl _) (fun field => rfl) ?_
  show (Recalling.answer (Zone.utc.startOfDay? (Zone.utc.dayNumber millis)) >>= fun begins =>
    pure (Value.date begins)) = _
  rw [same, begins]
  rfl

/-- A decimal is stored again if its scale and the length of its unscaled part are 32-bit numbers.
-/
theorem decimal {number : Decimal} (scaled : Signed.Fits32 number.scale.toInt)
    (long : (BigEndian.encodeSigned number.unscaled).length < 2 ^ 31) :
    StorableAt maxDepth inner remember .decimal (.decimal number) := by
  refine of_flat rfl rfl rfl rfl rfl (Nat.le_of_eq ?_)
    (fun field start => Encoding.writes_decimal scaled long) fun earlier => rfl
  rw [List.length_append, List.length_append, BigEndian.encode32, BigEndian.length_encode,
    BigEndian.length_encode]
  rfl

/-- Text is stored again if a reader takes its length. -/
theorem string {text : String} (narrow : (Utf8.encode text).length < 2 ^ 31) :
    StorableAt maxDepth inner remember .string (.string text) := by
  refine of_flat rfl rfl rfl rfl rfl (Nat.le_of_eq List.length_append)
    (fun field start => .emit _) fun earlier => ?_
  exact Recalling.run_pure_bind_map (Recall.string_eq_some.mpr ⟨narrow, rfl, rfl⟩)

/-- Bytes are stored again if a reader takes their number. -/
theorem binary {bytes : List UInt8} (narrow : bytes.length < 2 ^ 31) :
    StorableAt maxDepth inner remember .binary (.binary bytes) := by
  refine of_flat rfl rfl rfl rfl rfl (Nat.le_of_eq List.length_append)
    (fun field start => .emit _) fun earlier => ?_
  exact Recalling.run_pure_bind_map (Recall.binary_eq_some.mpr ⟨narrow, rfl, rfl⟩)

/-- So is a bag of links, whose bytes nobody looks into. -/
theorem linkBag {bytes : List UInt8} (narrow : bytes.length < 2 ^ 31) :
    StorableAt maxDepth inner remember .linkBag (.linkBag bytes) := by
  refine of_flat rfl rfl rfl rfl rfl (Nat.le_of_eq List.length_append)
    (fun field start => .emit _) fun earlier => ?_
  exact Recalling.run_pure_bind_map (Recall.binary_eq_some.mpr ⟨narrow, rfl, rfl⟩)

/-- A link that holds a bare identity is stored as it is. -/
theorem link (rid : RecordId) :
    StorableAt maxDepth inner remember .link (.link (.identity rid)) := by
  refine of_flat rfl rfl rfl rfl rfl (Nat.le_refl _)
    (fun field start => Link.writes_bare rid start) fun earlier => ?_
  refine Recalling.run_pure_bind_map ?_
  show some ((LinkTarget.identity rid).stored _ earlier) = _
  rw [LinkTarget.stored_bare]
  rfl

section Links

variable {items : List (Option LinkTarget)} (narrow : items.length < 2 ^ 31)
  (elements : ∀ item ∈ items, IsLinkElement item)
include elements

/-- A list of links is written as its number and the identities behind it. -/
theorem writes_links (start : Nat) :
    Encoder.Writes (Encoding.writeLinks (Context.bare maxDepth) items) start
      (Varint.encode (UInt64.ofNat items.length) ++ items.flatMap linkBytes) :=
  (Encoder.Writes.emit _).bind
    (.forM items _ fun item there start => (elements item there).writes start)

include narrow

/-- A list of links comes back as it is if a reader takes its number. -/
theorem recall_links (earlier : List LinkTarget) :
    Recall.links (Context.bare maxDepth) items earlier = some (items, earlier) := by
  rw [Recall.links, Recalling.run_bind (Recall.length_eq_some.mpr ⟨narrow, rfl, rfl⟩),
    ← Recalling.mapM_asking, Recalling.run_mapM_of_forall (g := id), List.map_id]
  intro item there
  exact congrArg some (elements item there).normal

theorem linkList : StorableAt maxDepth inner remember .linkList (.linkList items) :=
  of_flat rfl rfl rfl rfl (wellFormedLinks_iff.mpr fun item there => (elements item there).formed)
    (Nat.le_of_eq List.length_append) (fun _ start => writes_links elements start)
    fun earlier => Recalling.run_pure_bind_map (recall_links narrow elements earlier)

theorem linkSet : StorableAt maxDepth inner remember .linkSet (.linkSet items) :=
  of_flat rfl rfl rfl rfl (wellFormedLinks_iff.mpr fun item there => (elements item there).formed)
    (Nat.le_of_eq List.length_append) (fun _ start => writes_links elements start)
    fun earlier => Recalling.run_pure_bind_map (recall_links narrow elements earlier)

end Links

/-- A map of links is stored again if a reader takes the lengths of its keys; they are in order, so
the map that comes back has its entries where they were. -/
theorem linkMap {entries : List (String × Option LinkTarget)} (narrow : entries.length < 2 ^ 31)
    (ordered : OrderedMap.Ascending entries)
    (keyed : ∀ entry ∈ entries, (Utf8.encode entry.1).length < 2 ^ 31)
    (elements : ∀ entry ∈ entries, IsLinkElement entry.2) :
    StorableAt maxDepth inner remember .linkMap (.linkMap entries) := by
  have formed : (Value.linkMap entries).isWellFormed = true :=
    Bool.and_eq_true_iff.mpr ⟨decide_eq_true ordered,
      wellFormedLinkEntries_iff.mpr fun entry there => (elements entry there).formed⟩
  refine of_flat rfl rfl rfl rfl formed (Nat.le_of_eq List.length_append) (fun field start => ?_)
    fun earlier => Recalling.run_pure_bind_map ?_
  · -- each entry is its key and its identity
    refine (Encoder.Writes.emit _).bind (.forM entries _ fun entry there start => ?_)
    exact (Encoder.Writes.emit _).bind ((elements entry there).writes _)
  · rw [Recall.linkMap, Recalling.run_bind (Recall.length_eq_some.mpr ⟨narrow, rfl, rfl⟩),
      Recalling.run_mapM_of_forall (g := id), List.map_id]
    intro entry there
    -- a key comes back if its length is taken, and an identity always
    rw [Recall.linkEntry, Recalling.run_bind (Recall.string_eq_some.mpr ⟨keyed entry there, rfl, rfl⟩)]
    exact Recalling.run_pure_bind_map (congrArg some (elements entry there).normal)

end Storable

/-! ## Numbers and text, by the bytes they take again -/

theorem countBulk_le {n spent : Nat} (positive : 0 < spent) (fits : n < 128 ^ spent) :
    countBulk n ≤ spent :=
  Varint.length_encode_le positive (Nat.lt_of_le_of_lt (Nat.mod_le _ _) fits)

/-- The word of a natural number is the number. -/
theorem Signed.toNat_toUInt64 {v : Int32} (natural : 0 ≤ v.toInt) :
    v.toInt64.toUInt64.toNat = v.toInt.toNat := by
  have natural : 0 ≤ v.toInt64 := by
    rw [Int64.le_iff_toInt_le, Int32.toInt_toInt64]
    exact natural
  rw [Int64.toNat_toUInt64_of_le natural, ← Int64.toNat_toInt, Int32.toInt_toInt64]

namespace Metered

variable {input : List UInt8}

theorem signedVarint_bulk : Metered input (Cursor.signedVarint input) fun spent v =>
    0 < spent ∧ v.toUInt64.toNat < 128 ^ spent :=
  varint_spelled.map fun _ _ spelled => spelled

/-- A 32-bit number that was read can be spelled in the bytes it was read from. -/
theorem varint32_bulk : Metered input (Cursor.varint32 input) fun spent v =>
    0 < spent ∧ v.toInt64.toUInt64.toNat < 128 ^ spent := by
  refine checked signedVarint_bulk fun start v spent spelled => ?_
  split
  · next fits =>
    refine pure ?_
    rw [Signed.toInt64_toInt32 fits]
    exact spelled
  · exact malformed

/-- So can a 16-bit number. -/
theorem varint16_bulk : Metered input (Cursor.varint16 input) fun spent v =>
    0 < spent ∧ v.toInt64.toUInt64.toNat < 128 ^ spent := by
  refine checked signedVarint_bulk fun start v spent spelled => ?_
  split
  · next fits =>
    refine pure ?_
    rw [Signed.toInt64_toInt16 fits]
    exact spelled
  · exact malformed

/-- A length that was read fits the bytes it was read from, and a reader takes it again. -/
theorem length_bulk : Metered input (Cursor.length input) fun spent n =>
    0 < spent ∧ n < 128 ^ spent ∧ n < 2 ^ 31 := by
  refine checked varint32_bulk fun start v spent spelled => ?_
  split
  · next natural =>
    have narrow := Int32.toInt_lt v
    rw [Signed.toNat_toUInt64 natural] at spelled
    exact pure ⟨spelled.1, spelled.2, by omega⟩
  · exact malformed

/-- Bytes that were read take no more than was read of them: the shortest length in front is no
longer than the one that was there. -/
theorem binary_bulk : Metered input (Cursor.binary input) fun spent bytes =>
    0 < spent ∧ stringBulk bytes.length ≤ spent ∧ bytes.length < 2 ^ 31 := by
  refine length_bulk.bind fun count spent fact => (take count).mono fun more bytes taken => ?_
  obtain ⟨positive, fits, narrow⟩ := fact
  obtain ⟨rfl, same⟩ := taken
  have number := countBulk_le positive fits
  rw [same, stringBulk]
  exact ⟨by omega, by omega, narrow⟩

/-- Text is spelled by the bytes that it was read from, so it takes no more either. -/
theorem string_bulk : Metered input (Cursor.string input) fun spent text =>
    0 < spent ∧ stringBulk (Utf8.encode text).length ≤ spent ∧
      (Utf8.encode text).length < 2 ^ 31 := by
  refine checked binary_bulk fun start bytes spent fact => ?_
  cases spelled : Utf8.decode bytes with
  | error cause => exact malformed
  | ok text =>
    refine pure ?_
    rw [Utf8.encode_of_decode spelled]
    exact fact

end Metered

/-! ## What is read can be stored

What was read may be spelled in more bytes than it needs, and never in fewer, so writing it needs no
more than it cost. -/

namespace Decoding

variable {input : List UInt8}

/-- The fewest bytes of an unscaled part are at most one more than those that were read. -/
theorem decimal_bulk : Metered input (readDecimal input) fun spent number =>
    Signed.Fits32 number.scale.toInt ∧
      (BigEndian.encodeSigned number.unscaled).length < 2 ^ 31 ∧
      8 + (BigEndian.encodeSigned number.unscaled).length < 2 * spent := by
  refine Metered.word32.bind fun scale spent four => ?_
  refine Metered.checked Metered.word32 fun start count more four' => ?_
  dsimp only
  split
  · exact Metered.malformed
  · next natural =>
    refine (Metered.take _).map fun rest unscaled taken => ?_
    have scaled := scale.toInt32.toInt_lt
    have scaled' := scale.toInt32.le_toInt
    -- the shortest form has a byte at least, also where none was read; the words in front pay for
    -- that
    have fewest := BigEndian.length_encodeSigned_decodeSigned unscaled
    have narrow := count.toInt32.toInt_lt
    refine ⟨?_, ?_, ?_⟩
    · rw [Int32.toInt_toInt64]
      exact ⟨scaled', Int.le_of_lt_add_one scaled⟩
    · show (BigEndian.encodeSigned (BigEndian.decodeSigned unscaled)).length < _
      omega
    · show 8 + (BigEndian.encodeSigned (BigEndian.decodeSigned unscaled)).length < _
      omega

/-- The two numbers of an identity are each written in the bytes they were read from, or fewer. -/
theorem id_bulk : Metered input (readId input) fun spent rid =>
    0 < spent ∧ (Link.idBytes rid).length ≤ spent := by
  refine Metered.varint32_bulk.bind fun cluster spent spelled =>
    Metered.signedVarint_bulk.map fun more position spelled' => ?_
  have first : (Varint.encodeSigned cluster.toInt64).length ≤ spent :=
    Varint.length_encode_le spelled.1 spelled.2
  have second : (Varint.encodeSigned position).length ≤ more :=
    Varint.length_encode_le spelled'.1 spelled'.2
  refine ⟨by omega, ?_⟩
  rw [Link.idBytes, List.length_append]
  exact Nat.add_le_add first second

/-- An element of a collection of links costs its identity, and an absent one the identity set aside
for it. -/
theorem linkElement_bulk : Metered input (readLinkElement input) fun spent item =>
    (linkBytes item).length ≤ spent ∧ IsLinkElement item := by
  refine id_bulk.map fun spent rid light => ?_
  by_cases absent : rid.isNullLink = true
  · -- the identity set aside for no link is read as no target, and stands for it again
    have same : rid = .nullLink := of_decide_eq_true absent
    subst same
    exact ⟨light.2, fun target some => by cases some⟩
  · rw [if_neg absent]
    refine ⟨light.2, fun target some => ?_⟩
    cases some
    exact ⟨rid, rfl, Bool.eq_false_iff.mpr absent⟩

/-- A list of links is paid for twice over, its number included. -/
theorem links_bulk : Metered input (readLinks input) fun spent items =>
    countBulk items.length + (items.flatMap linkBytes).length < 2 * spent ∧
      items.length < 2 ^ 31 ∧ ∀ item ∈ items, IsLinkElement item := by
  refine Metered.length_bulk.bind fun count spent fact => ?_
  refine (linkElement_bulk.times_counted (q := fun spent items =>
    (items.flatMap linkBytes).length ≤ spent ∧ ∀ item ∈ items, IsLinkElement item)
    ⟨Nat.le_refl 0, fun _ none => by cases none⟩
    (fun one item later rest first others => ?_) count).mono fun more items facts => ?_
  · rw [List.flatMap_cons, List.length_append]
    exact ⟨by omega, List.forall_mem_cons.mpr ⟨first.2, others.2⟩⟩
  · obtain ⟨rfl, light, elements⟩ := facts
    -- the number in front is written in no more bytes than it was read from
    have number := countBulk_le fact.1 fact.2.1
    exact ⟨by omega, fact.2.2, elements⟩

/-- A key is spelled by its tag and its text, in no more bytes than were read. -/
theorem mapKey_bulk : Metered input (readMapKey input) fun spent key =>
    (Encoding.keyBytes key).length ≤ spent ∧ (Utf8.encode key).length < 2 ^ 31 := by
  refine Metered.checked Metered.tag fun start tag spent one => ?_
  split
  · refine Metered.string_bulk.mono fun more key fact => ⟨?_, fact.2.2⟩
    -- the tag in front is one byte, read and written
    have light : countBulk (Utf8.encode key).length + (Utf8.encode key).length ≤ more := fact.2.1
    rw [Encoding.keyBytes, List.cons_append, List.length_cons, List.length_append]
    rw [countBulk] at light
    omega
  · exact Metered.malformed

/-- Entries with one key fall together, which only makes the map lighter. -/
theorem linkMap_bulk : Metered input (readLinkMap input) fun spent entries =>
    countBulk entries.length + (entries.flatMap linkEntryBytes).length < 2 * spent ∧
      entries.length < 2 ^ 31 ∧ OrderedMap.Ascending entries ∧
      ∀ entry ∈ entries, (Utf8.encode entry.1).length < 2 ^ 31 ∧ IsLinkElement entry.2 := by
  refine Metered.length_bulk.bind fun count spent fact => ?_
  let good : String × Option LinkTarget → Prop := fun entry =>
    (Utf8.encode entry.1).length < 2 ^ 31 ∧ IsLinkElement entry.2
  have entry : Metered input (readMapKey input >>= fun key => readLinkElement input >>= fun link =>
      pure (key, link)) fun spent entry => (linkEntryBytes entry).length ≤ spent ∧ good entry :=
    mapKey_bulk.bind fun key spent keyed => linkElement_bulk.map fun more link linked => by
      refine ⟨?_, keyed.2, linked.2⟩
      rw [linkEntryBytes, List.length_append]
      exact Nat.add_le_add keyed.1 linked.1
  refine (entry.times_counted (q := fun spent entries =>
    (entries.map fun entry => (linkEntryBytes entry).length).sum ≤ spent ∧
      ∀ entry ∈ entries, good entry)
    ⟨Nat.le_refl 0, fun _ none => by cases none⟩
    (fun one entry later rest first others => ?_) count).map fun more entries facts => ?_
  · rw [List.map_cons, List.sum_cons]
    exact ⟨by omega, List.forall_mem_cons.mpr ⟨first.2, others.2⟩⟩
  · obtain ⟨rfl, light, each⟩ := facts
    have lighter := OrderedMap.sum_ofList_le (fun entry => (linkEntryBytes entry).length) entries
    have fewer := OrderedMap.length_ofList_le entries
    have number := countBulk_le fact.1 (Nat.lt_of_le_of_lt fewer fact.2.1)
    -- dropping entries shortens both the count and the table, and the bound was for all of them
    rw [List.length_flatMap]
    exact ⟨by omega, by omega, OrderedMap.ascending_ofList entries,
      fun entry there => each entry (OrderedMap.mem_of_mem_ofList there)⟩

variable {maxDepth : Nat} {inner : Except CodecError BodyWriter} {remember : Option BodyRecall}

/-- A day that was read begins at some instant, and that instant is written as the day again. -/
theorem date_bulk : Metered input (readDate (Context.bare maxDepth) input) fun spent value =>
    StorableAt maxDepth inner remember .date value ∧ value.bulk < 2 * spent := by
  refine Metered.checked Metered.signedVarint_bulk fun start day spent spelled => ?_
  cases begins : (Context.bare maxDepth).options.zone.startOfDay? day with
  | none => exact Metered.malformed
  | some millis =>
    -- under UTC an instant at which a day begins lies in that day
    have same : Zone.utc.dayNumber millis = day := Zone.dayNumber_of_startOfDay begins
    have light : (Varint.encodeSigned day).length ≤ spent :=
      Varint.length_encode_le spelled.1 spelled.2
    refine Metered.pure ⟨.date begins same, ?_⟩
    show (Varint.encodeSigned (Zone.utc.dayNumber millis)).length < _
    rw [same]
    omega

/-- **Whatever is read under a tag whose bodies hold no further bodies can be stored again.** -/
theorem scalar_bulk (tag : TypeTag) (flat : tag.isContainer = false) :
    Metered input (readScalar (Context.bare maxDepth) input tag)
      (Fetched maxDepth (Encoding.writeBodyWith (Context.bare maxDepth) inner)
        (Recall.bodyWith (Context.bare maxDepth) remember) tag) := by
  have number {v : Int64} {spent : Nat} (spelled : 0 < spent ∧ v.toUInt64.toNat < 128 ^ spent) :
      (Varint.encodeSigned v).length < 2 * spent := by
    have light : (Varint.encodeSigned v).length ≤ spent :=
      Varint.length_encode_le spelled.1 spelled.2
    omega
  cases tag with
  | integer =>
    exact Metered.varint32_bulk.map fun spent v spelled => .stored (.integer v) (number spelled)
  | long | dateTime =>
    exact Metered.signedVarint_bulk.map fun spent v spelled =>
      .stored (.of_emit rfl rfl rfl rfl rfl (Nat.le_refl _) (fun _ => rfl) rfl) (number spelled)
  | short =>
    exact Metered.varint16_bulk.map fun spent v spelled => .stored (.short v) (number spelled)
  | string =>
    exact Metered.string_bulk.map fun spent text fact =>
      .stored (.string fact.2.2) (show stringBulk _ < 2 * spent by omega)
  | double =>
    exact Metered.word64.map fun spent word eight =>
      .stored (.of_emit rfl rfl rfl rfl rfl (Nat.le_refl _) (fun _ => rfl) rfl)
        (show 8 < 2 * spent by omega)
  | float =>
    exact Metered.word32.map fun spent word four =>
      .stored (.of_emit rfl rfl rfl rfl rfl (Nat.le_refl _) (fun _ => rfl) rfl)
        (show 4 < 2 * spent by omega)
  | byte | boolean =>
    exact Metered.byte.map fun spent b one =>
      .stored (.of_emit rfl rfl rfl rfl rfl (Nat.le_refl _) (fun _ => rfl) rfl)
        (show 1 < 2 * spent by omega)
  | date => exact date_bulk.mono fun spent value fact => .stored fact.1 fact.2
  | decimal =>
    exact decimal_bulk.map fun spent number fact => .stored (.decimal fact.1 fact.2.1) fact.2.2
  | binary =>
    exact Metered.binary_bulk.map fun spent bytes fact =>
      .stored (.binary fact.2.2) (show stringBulk _ < 2 * spent by omega)
  | linkBag =>
    exact Metered.binary_bulk.map fun spent bytes fact =>
      .stored (.linkBag fact.2.2) (show stringBulk _ < 2 * spent by omega)
  | link =>
    exact id_bulk.map fun spent rid fact =>
      .stored (.link rid) (show (Link.idBytes rid).length < 2 * spent by omega)
  | linkList =>
    exact links_bulk.map fun spent items fact => .stored (.linkList fact.2.1 fact.2.2) fact.1
  | linkSet =>
    exact links_bulk.map fun spent items fact => .stored (.linkSet fact.2.1 fact.2.2) fact.1
  | linkMap =>
    exact linkMap_bulk.map fun spent entries fact =>
      .stored (.linkMap fact.2.1 fact.2.2.1 (fun entry there => (fact.2.2.2 entry there).1)
        fun entry there => (fact.2.2.2 entry there).2) fact.1
  | custom =>
    -- without a registry there is no object to make
    exact Metered.string_bulk.bind fun typeName spent _ =>
      Metered.binary_bulk.bind fun stream more _ => Metered.throw
  | transient | any => exact Metered.pure (.null rfl)
  | embedded | embeddedList | embeddedSet | embeddedMap => cases flat

end Decoding
end DocumentCodec
