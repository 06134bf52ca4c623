import DocumentCodec.Proofs.LeftOut.Table
import Mathlib.Data.List.Pairwise
/-!
# What a projection leaves out

Decoding with a projection steps over the slots of the fields that were not asked for, so it never
comes to where their bodies are.  A body that was asked for lies where its own slot points to, and
so does everything that was written for it: no offset inside it leads out of it.  So whatever the
left out bodies are overwritten with, decoding goes the same way: it gives the same record or fails
the same way with as much of the record bound, and it ends at the same place with the same budget
spent.

The two inputs agree on the header of the outermost table, for they differ in bodies alone, and on
the bodies that were asked for, for no two bodies share a byte.
-/

namespace DocumentCodec

/-! ## Level by level -/

section Levels

variable {context : Context} {input other : List UInt8} (same : other.length = input.length)
  (coherent : ∀ schema, context.schema = some schema → schema.IsCoherent)
  (small : input.length < 2 ^ 31)
include same coherent small

/-- One level more of containers, given that the bodies inside them are read alike. -/
theorem repeats_bodyWith {inner : Except CodecError BodyWriter}
    {inner' : List UInt8 → Except CodecError BodyReader}
    (deeper : ∀ write, inner = .ok write → ∃ read remember, (∀ i, inner' i = .ok (read i)) ∧
      Repeating context input other write read remember)
    {field : String} {tag : TypeTag} {linked : Option TypeTag} {value : Value} {start : Nat}
    {earlier calls : List LinkTarget} {bytes : List UInt8}
    (run : Encoding.writeBodyWith context inner field tag linked value start earlier
      = ⟨bytes, calls, .ok ()⟩)
    (readable : ∀ w ∈ value.written context tag linked, Readable w) :
    Repeats input other (fun i => Decoding.readBodyWith context i (inner' i) tag) start bytes := by
  have self := readable _ (Value.mem_written tag linked value)
  have below (w : TypeTag × Value) (there : w ∈ (value.written context tag linked).tail) :
      Readable w := readable w (List.mem_of_mem_tail there)
  -- one case for each way in which a body is written; every container goes a level down
  cases WrittenBody.of_eq_ok run with
  | scalar flat written =>
    simp only [Decoding.readBodyWith_flat _ _ flat]
    exact Repeats.scalar same small self.formed written
  | embedded inside written =>
    obtain ⟨read, remember, ready, level⟩ := deeper _ inside
    simp only [Decoding.readBodyWith, ready]
    exact level.embedded same small coherent below (self.named _ rfl) written
  | serializable inside written =>
    obtain ⟨read, remember, ready, level⟩ := deeper _ inside
    simp only [Decoding.readBodyWith, ready]
    exact level.embedded same small coherent (Encoding.readable_markedRecord below)
      (Encoding.named_markedRecord (self.named _ rfl)) written
  | sequence sort elements inside written =>
    obtain ⟨read, remember, ready, level⟩ := deeper _ inside
    rw [Value.written_sequence elements] at below
    simp only [ready, Decoding.readBodyWith_sequence sort]
    exact (level.items same small below written).andThen _
  | map inside written =>
    obtain ⟨read, remember, ready, level⟩ := deeper _ inside
    simp only [Decoding.readBodyWith, ready]
    exact (level.map same small below written).andThen _

/-- Every body is read alike, however deep it nests. -/
theorem repeating_body (room : Nat) : Repeating context input other
    (Encoding.writeBody context room) (fun i => Decoding.readBody context i room)
    (Recall.body context room) := by
  induction room with
  | zero =>
    exact ⟨lays_body 0, restores_body coherent (by omega) 0,
      repeats_bodyWith same coherent small fun write none => by cases none⟩
  | succ room ih =>
    refine ⟨lays_body _, restores_body coherent (by omega) _,
      repeats_bodyWith same coherent small fun write found => ?_⟩
    cases found
    exact ⟨_, _, fun _ => rfl, ih⟩

end Levels

/-! ## Bodies that are left out

The bodies of the top table lie apart, so a byte of a body that is left out lies in none that is
asked for, and not in the header either. -/

/-- The bodies of the seats, if they have any, share no byte. -/
def Seat.Apart (seat other : Seat) : Prop :=
  ∀ span ∈ seat.body, ∀ span' ∈ other.body, span.last ≤ span'.start ∨ span'.last ≤ span.start

instance : Std.Symm Seat.Apart where
  symm _ _ apart span body span' body' := (apart span' body' span body).symm

/-- The bodies of a table stand one behind the other, so no two seats share a byte. -/
theorem Region.IsLaidOut.seats_apart {buffer : List UInt8} {region : Region}
    (laid : region.IsLaidOut buffer) : region.seats.Pairwise Seat.Apart :=
  (List.pairwise_filterMap.mp laid.apart).imp fun before span body span' body' =>
    Or.inl (before span body span' body')

/-- The offset is in the body of a member that the projection does not ask for. -/
def Region.LeavesOut (region : Region) (projection : Option (List String)) (offset : Nat) : Prop :=
  ∃ seat ∈ region.seats, Decoding.isWanted projection seat.member.field = false ∧
    ∃ span ∈ seat.body, span.start ≤ offset ∧ offset < span.last

section Outside

variable {input other : List UInt8} {region : Region} {projection : Option (List String)}
  (laid : region.IsLaidOut input)
  (outside : ∀ offset, other[offset]? ≠ input[offset]? → region.LeavesOut projection offset)
include laid outside

/-- Inputs that differ in bodies alone agree on the header. -/
theorem Region.IsLaidOut.agreeOn_header : AgreeOn input other region.start region.headerEnd := by
  intro offset _ below
  by_contra differs
  obtain ⟨seat, there, -, span, body, low, -⟩ := outside offset differs
  have bounds := laid.bodies.bounds (List.mem_filterMap.mpr ⟨seat, there, body⟩)
  omega

/-- Inputs that differ in bodies that are left out agree on those that are asked for. -/
theorem Region.IsLaidOut.agreeOn_wanted {seat : Seat} (there : seat ∈ region.seats)
    (wanted : Decoding.isWanted projection seat.member.field = true) {span : Span}
    (body : span ∈ seat.body) : AgreeOn input other span.start span.last := by
  intro offset above below
  by_contra differs
  obtain ⟨seat', there', unwanted, span', body', low, high⟩ := outside offset differs
  have differ : seat ≠ seat' := by
    rintro rfl
    rw [wanted] at unwanted
    cases unwanted
  have apart := laid.seats_apart.forall there there' differ span body span' body'
  omega

end Outside

/-- What the region of a table says is what the table was written with. -/
theorem LaidTable.parts {context : Context} {buffer head tail : List UInt8} {members : List Member}
    {start last : Nat} {region : Region} {inner : List Region}
    (laid : LaidTable context buffer head members tail start last (region :: inner)) :
    region.start = start ∧ region.head = head ∧ region.seats.map (·.member) = members ∧
      region.tail = tail ∧ region.last = last := by
  generalize listed : region :: inner = regions at laid
  cases laid with
  | table region' bodies =>
    cases listed
    exact ⟨rfl, rfl, rfl, rfl, rfl⟩

namespace Record

/-- **A projection does not depend on the bodies that it leaves out.**  The encoding of a record is
laid out as a table, and any input of the same length that differs from it only inside bodies of
fields that were not asked for is decoded alike, into any target and whatever comes of it: the same
record and the same cursor, or the same failure and as much of the record. -/
theorem decode_ignores_left_out {context : Context} {record : Record} {bytes : List UInt8}
    (formed : record.isWellFormed = true)
    (built : ∀ schema, context.schema = some schema → schema.IsBuilt)
    (named : record.IsNamed context) (run : record.encode context = .ok bytes)
    (short : bytes.length < 2 ^ 31) :
    ∃ top inner, LaidRecord context bytes record 0 bytes.length (top :: inner) ∧
      (∀ region ∈ top :: inner, region.IsLaidOut bytes) ∧
      ∀ (projection : Option (List String)) (other : List UInt8) (target : Record),
        other.length = bytes.length →
        (∀ offset, other[offset]? ≠ bytes[offset]? → top.LeavesOut projection offset) →
        decode context other projection target = decode context bytes projection target := by
  obtain ⟨calls, emitted⟩ := encode_eq_ok run
  rw [emission, Encoding.writeRecord_eq] at emitted
  -- the record's own table is the region on top; what may differ lies in its bodies
  obtain ⟨top, inner, written, start, head, members, tail, last, seats, laid⟩ :=
    (lays_body context.options.maxDepth).region (Encoding.length_pos_prefixed _) emitted
      (Holds.whole bytes)
  rw [Nat.zero_add] at last
  have table : LaidTable context bytes _ _ _ _ _ (top :: inner) := .table top seats
  rw [start, head, members, tail, last] at table
  refine ⟨top, inner, table, laid, fun projection other target same outside => ?_⟩
  have laid := laid top List.mem_cons_self
  have coherent (schema : Snapshot) (known : context.schema = some schema) : schema.IsCoherent :=
    (built schema known).isCoherent
  -- so all bytes of its header are the same in both inputs
  have headed := laid.agreeOn_header outside
  -- and so are those of every body that is asked for, whatever stands between them
  have walk : Walk _ _ _ (fun seat => Decoding.isWanted projection seat.member.field = true) _ _ _ _
      _ _ (0 + top.head.length) := top.walk written laid headed
    (fun seat there wanted span body => laid.agreeOn_wanted outside there wanted body) (by omega)
  have again := (repeating_body same coherent short context.options.maxDepth).record same short
    coherent (readable_written formed named) (named record List.mem_cons_self) head members tail laid
    walk headed target
  rw [start] at again
  exact again

/-- The second of two bytes is overwritten where only the first field is asked for. -/
theorem decode_ignores_corrupted_second :
    let record : Record := ⟨none, RecordId.empty,
      [⟨"a", .byte 5, none⟩, ⟨"b", .byte 6, none⟩], false⟩
    let bytes : List UInt8 := [0, 1, 97, 0, 0, 0, 16, 17, 1, 98, 0, 0, 0, 17, 17, 0, 5, 6]
    record.encode {} = .ok bytes ∧ bytes.length < 2 ^ 31 ∧
      decode {} (bytes.set 17 9) (some ["a"]) Record.new
        = decode {} bytes (some ["a"]) Record.new := by
  intro record bytes
  have run : record.encode {} = .ok bytes := eq_ok_of_toOption (by decide +kernel)
  obtain ⟨top, inner, table, laid, ignores⟩ := decode_ignores_left_out (by rfl)
    (fun _ none => by cases none) (by unfold IsNamed; decide) run (by decide)
  refine ⟨run, by decide, ignores _ _ _ (by decide) fun offset differs => ?_⟩
  obtain rfl : offset = 17 := by
    by_contra other
    exact differs (List.getElem?_set_ne (Ne.symm other))
  have laid := laid top List.mem_cons_self
  obtain ⟨start, head, members, -, -⟩ := table.parts
  -- the second seat holds the slot at 10, which leads to the byte at 17
  obtain ⟨first, rest, seats, memberA, others⟩ := List.map_eq_cons_iff.mp members
  obtain ⟨second, none, rfl, memberB, -⟩ := List.map_eq_cons_iff.mp others
  have among : second ∈ top.seats := by
    rw [seats]
    exact List.mem_cons_of_mem _ List.mem_cons_self
  have seated := laid.seats
  rw [seats, start, head] at seated
  obtain ⟨-, slotA, -, slotB, -⟩ := seated
  rw [memberB, slotA, memberA] at slotB
  have filled := laid.slots second among
  obtain ⟨span, body⟩ : ∃ span, second.body = some span :=
    Option.ne_none_iff_exists'.mp fun empty => by
      have null := filled.bodiless.mp empty
      rw [memberB] at null
      cases null
  have leads := filled.pointer span body
  rw [slotB] at leads
  have begins : (17 : Int) = span.start := leads ▸ by decide
  have some := (laid.bodies.bounds (List.mem_filterMap.mpr ⟨second, among, body⟩)).2.1
  refine ⟨second, among, ?_, span, body, by omega, by omega⟩
  rw [memberB]
  rfl

end Record
end DocumentCodec
