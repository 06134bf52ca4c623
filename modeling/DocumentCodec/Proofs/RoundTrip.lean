import DocumentCodec.Proofs.Factories.Encoding
import DocumentCodec.Proofs.Failures.Reading
import DocumentCodec.Proofs.RoundTrip.Lossless
/-!
# The round trip

What was encoded is decoded to what is recalled of it, wherever it stands in an input, and decoding
hands out each byte once.  If nothing is lost, what is recalled is the normal form.

The writers and the readers of bodies are tied into one level by level, with the same room on both
sides, so that they agree is an induction on the room alone.  What it takes to be read back is said
of all that is written at once, of the record and of those that are written as part of it.
-/

namespace DocumentCodec

/-! ## Level by level

The induction is on the levels that are left, which are as many for the writer, for the reader and
for what is recalled.  A level less on the reader's side is refused, and then nothing is recalled
either. -/

section Levels

variable {context : Context} {exact : Prop} {input : List UInt8}
  (coherent : ∀ schema, context.schema = some schema → schema.IsCoherent)
  (small : input.length < 2 ^ 63)
include coherent small

/-- One level more of containers, given that the bodies inside them are read back; or that they are
neither read nor recalled, because a reader with less room than the writer had goes no deeper. -/
theorem restores_bodyWith {inner : Except CodecError BodyWriter}
    {inner' : Except CodecError BodyReader} {remember : Option BodyRecall}
    (deeper : ∀ write, inner = .ok write →
      (∃ read inside, inner' = .ok read ∧ remember = some inside ∧
        Restores context exact input write read inside) ∨
      (∃ e, inner' = .error e ∧ remember = none ∧ (Failure.codec e).isOverlap = false)) :
    Restores context exact input (Encoding.writeBodyWith context inner)
      (Decoding.readBodyWith context input inner') (Recall.bodyWith context remember) := by
  constructor
  intro field tag linked value start earlier calls bytes run readable
  have self := readable _ (Value.mem_written tag linked value)
  have below (w : TypeTag × Value) (there : w ∈ (value.written context tag linked).tail) :
      Readable w := readable w (List.mem_of_mem_tail there)
  -- one case for each way in which a body is written; where the reader has no level left it
  -- refuses, and nothing is recalled
  cases WrittenBody.of_eq_ok run with
  | scalar flat written =>
    rw [Decoding.readBodyWith_flat context input flat, Recall.bodyWith_flat flat]
    exact Recalls.scalar small self.formed written
  | embedded inside written =>
    rcases deeper _ inside with ⟨read, inner, rfl, rfl, restores⟩ | ⟨e, rfl, rfl, enough⟩
    · exact restores.embedded coherent small readable written
    · exact .refused rfl (fun _ => rfl) (Or.inl enough)
  | serializable inside written =>
    rcases deeper _ inside with ⟨read, inner, rfl, rfl, restores⟩ | ⟨e, rfl, rfl, enough⟩
    · exact restores.serializable coherent small readable written
    · exact .refused rfl (fun _ => rfl) (Or.inl enough)
  | sequence sort elements inside written =>
    rcases deeper _ inside with ⟨read, inner, rfl, rfl, restores⟩ | ⟨e, rfl, rfl, enough⟩
    · rw [Value.written_sequence elements] at below
      rw [Decoding.readBodyWith_sequence sort, Recall.bodyWith_sequence sort elements]
      exact (Recalls.items restores small below written).map
    · rw [Decoding.readBodyWith_sequence_refused sort, Recall.bodyWith_sequence_refused sort elements]
      exact .refused rfl (fun _ => rfl) (Or.inl enough)
  | map inside written =>
    rcases deeper _ inside with ⟨read, inner, rfl, rfl, restores⟩ | ⟨e, rfl, rfl, enough⟩
    · have ordered := of_decide_eq_true (Bool.and_eq_true_iff.mp self.formed).1
      exact (restores.map small ordered below written).map
    · exact .refused rfl (fun _ => rfl) (Or.inl enough)

/-- Every body is read back, however deep it nests: what was written with some room is read with as
much of it. -/
theorem restores_body (room : Nat) : Restores context exact input
    (Encoding.writeBody context room) (Decoding.readBody context input room)
    (Recall.body context room) := by
  induction room with
  | zero => exact restores_bodyWith coherent small fun write none => by cases none
  | succ room ih =>
    refine restores_bodyWith coherent small fun write same => Or.inl ⟨_, _, rfl, rfl, ?_⟩
    cases same
    exact ih

end Levels

namespace Record

variable {context : Context} {record : Record} {bytes : List UInt8}

/-! ## What it takes -/

/-- At every level each field has a name. -/
def IsNamed (context : Context) (record : Record) : Prop :=
  ∀ level ∈ record.levels context, ∀ field ∈ level.fields, field.name ≠ ""

/-- Nothing that is written for the record is lost on the way: the empty class name would be taken
for none, an embedded record with the mark of an object for an object, an object needs a factory,
and a day is counted in whole days from the epoch, which must not leave the instants. -/
structure IsRestorable (context : Context) (record : Record) : Prop where
  classed : ∀ level ∈ record.levels context, level.className ≠ some ""
  unmarked : ∀ level ∈ (record.levels context).tail,
    level.contains serializableClassField = false
  registered : ∀ w ∈ record.written context, ∀ className inner,
    w.2 = .serializable className inner →
    context.registry.any (·.hasSerializable className) = true
  dated : ∀ w ∈ record.written context, ∀ millis, w.1 = .date → w.2.millis? = some millis →
    Signed.Fits64 ((context.options.zone.dayNumber millis).toInt * Zone.millisPerDay)

theorem mem_levels {w : TypeTag × Value} {held : Record} (there : w ∈ record.written context)
    (holds : heldRecord w = some held) : held ∈ (record.levels context).tail :=
  List.mem_filterMap.mpr ⟨w, there, holds⟩

/-- Every part of a record in order can be read back. -/
theorem readable_written (formed : record.isWellFormed = true) (named : record.IsNamed context) :
    ∀ w ∈ record.written context, Readable w := by
  intro w there
  constructor
  · exact record.isWellFormed_written context formed w there
  · exact fun held holds => named held (List.mem_of_mem_tail (mem_levels there holds))

/-- What is written for a restorable record loses nothing. -/
theorem lossless_written (restorable : record.IsRestorable context) :
    ∀ w ∈ record.written context, Lossless context w := by
  intro w there
  have unmarked (held : Record) (holds : heldRecord w = some held) :
      held.contains serializableClassField = false :=
    restorable.unmarked held (mem_levels there holds)
  constructor
  · exact fun held holds => restorable.classed held (List.mem_of_mem_tail (mem_levels there holds))
  · rintro held rfl field inside marked
    exact absurd marked ((contains_eq_false_iff held _).mp (unmarked held rfl) field inside)
  · rintro className held rfl
    exact unmarked held rfl
  · exact restorable.registered w there
  · exact restorable.dated w there

/-! ## There and back

Two statements are made of the round trip, and both come from the same one: what is read is what is
recalled, or nothing is recalled and the reading fails.  Where nothing is lost what is recalled is
the normal form; with the budget counted it is read by handing out every byte once. -/

/-- The bytes of a record are those of its emission, which has asked the resolver for something or
nothing. -/
theorem encode_eq_ok (run : record.encode context = .ok bytes) :
    ∃ calls, record.emission context 0 [] = ⟨bytes, calls, .ok ()⟩ := by
  rw [encode] at run
  rcases emitted : record.emission context 0 [] with ⟨all, calls, result⟩
  rw [emitted] at run
  cases result with
  | error e => cases run
  | ok _ =>
    cases run
    exact ⟨calls, rfl⟩

section Reading

variable {exact : Prop} {input : List UInt8} {read : BodyReader} {remember : BodyRecall}
  (restores : Restores context exact input
    (Encoding.writeBody context context.options.maxDepth) read remember)
  (coherent : ∀ schema, context.schema = some schema → schema.IsCoherent)
  (formed : record.isWellFormed = true) (named : record.IsNamed context)
include restores coherent formed named

/-- Wherever the encoding of a record stands in an input, a reader that reads back what is written
as part of the record reads back the record, and hands out each of its bytes once. -/
theorem recalls_emission {start : Nat} {earlier calls : List LinkTarget}
    (run : record.emission context start earlier = ⟨bytes, calls, .ok ()⟩)
    (small : input.length < 2 ^ 63) :
    Recalls exact context.RefusesWith input
      (Decoding.readRecordInto context input read none Record.new) start bytes
      (Recall.record context remember record) earlier (earlier ++ calls) :=
  restores.record coherent small (readable_written formed named) (named record List.mem_cons_self)
    (isWellFormed_distinct formed) run

/-- Where the input is the encoding, reading ends with it. -/
theorem ends_encode (run : record.encode context = .ok input) (small : input.length < 2 ^ 63)
    (exactly : exact → (Recall.record context remember record []).isSome = true) :
    Ends exact context.RefusesWith ⟨input.length, input.length⟩
      (fun made => ∃ calls, record.emission context 0 [] = ⟨input, calls, .ok ()⟩ ∧
        Recall.record context remember record [] = some (made, calls))
      (Decoding.readRecordInto context input read none Record.new Cursor.start) := by
  obtain ⟨calls, emitted⟩ := encode_eq_ok run
  have back := recalls_emission restores coherent formed named emitted small exactly
  refine (back (Holds.whole input) 0 ?_).mono ?_ fun made recalled => ⟨calls, emitted, recalled⟩
  · exact Nat.le_of_eq (Nat.zero_add _)
  · rw [Nat.zero_add]

end Reading

/-- The whole encoding is decoded to what is recalled of the record, if anything is. -/
theorem readingInto_recalled {exact : Prop}
    (coherent : ∀ schema, context.schema = some schema → schema.IsCoherent)
    (formed : record.isWellFormed = true) (named : record.IsNamed context)
    (run : record.encode context = .ok bytes) (small : bytes.length < 2 ^ 63)
    (exactly : exact → (record.recalled context []).isSome = true) :
    Ends exact context.RefusesWith ⟨bytes.length, bytes.length⟩
      (fun made => ∃ calls, record.emission context 0 [] = ⟨bytes, calls, .ok ()⟩ ∧
        record.recalled context [] = some (made, calls))
      (readingInto context bytes none Record.new Cursor.start) :=
  ends_encode (restores_body coherent small context.options.maxDepth) coherent formed named run small
    exactly

/-- Something is recalled of the record and the whole encoding is decoded to it, or nothing is and
decoding fails. -/
theorem decode_encode_cases (coherent : ∀ schema, context.schema = some schema → schema.IsCoherent)
    (formed : record.isWellFormed = true) (named : record.IsNamed context)
    (run : record.encode context = .ok bytes) (small : bytes.length < 2 ^ 63) :
    (∃ made calls, record.emission context 0 [] = ⟨bytes, calls, .ok ()⟩ ∧
      record.recalled context [] = some (made, calls) ∧
      decode context bytes none Record.new = .ok () ⟨⟨bytes.length, bytes.length⟩, made⟩) ∨
    (record.recalled context [] = none ∧
      ∃ e state, decode context bytes none Record.new = .error e state) := by
  obtain ⟨calls, emitted⟩ := encode_eq_ok run
  let read := Decoding.readBody context bytes context.options.maxDepth
  have recalls (exact : Prop) : Recalls exact context.RefusesWith bytes
      (Decoding.readRecordInto context bytes read none Record.new) 0 bytes
      (record.recalled context) [] ([] ++ calls) :=
    recalls_emission (restores_body coherent small context.options.maxDepth) coherent formed named
      emitted small
  have budget : 0 + bytes.length ≤ bytes.length := Nat.le_of_eq (Nat.zero_add _)
  -- exactly if something is recalled the reading goes through
  rcases Recalls.cases recalls (Holds.whole bytes) budget with
    ⟨made, recalled, read⟩ | ⟨nothing, e, there, failed⟩
  · rw [Nat.zero_add] at read
    exact Or.inl ⟨made, calls, emitted, recalled, (decodeFrom_ok_iff context bytes none).mpr read⟩
  · have failed : readingInto context bytes none Record.new Cursor.start = .error e there := failed
    obtain ⟨made, decoded⟩ := (decodeFrom_error_iff context bytes none).mpr failed
    exact Or.inr ⟨nothing, e, _, decoded⟩

/-- Wherever an encoding stands in an input, what is decoded there is what is recalled of the
record. -/
theorem recalled_of_decodeFrom {made : Record} {input : List UInt8} {start visited : Nat}
    {earlier calls : List LinkTarget} {there : Cursor} (formed : record.isWellFormed = true)
    (coherent : ∀ schema, context.schema = some schema → schema.IsCoherent)
    (named : record.IsNamed context)
    (run : record.emission context start earlier = ⟨bytes, calls, .ok ()⟩)
    (holds : Holds input start bytes) (small : input.length < 2 ^ 63)
    (decoded : decodeFrom context input none ⟨⟨start, visited⟩, Record.new⟩
      = .ok () ⟨there, made⟩) :
    record.recalled context earlier = some (made, earlier ++ calls) := by
  have restores : Restores context False input _ _ _ :=
    restores_body coherent small context.options.maxDepth
  have recalls := recalls_emission restores coherent formed named run small
  have room := holds.bound
  have ends := recalls False.elim holds 0 (by omega)
  have reading := (decodeFrom_ok_iff context input none).mp decoded
  rw [readingInto] at reading
  rw [reading] at ends
  exact ends.2

/-- What a decoding of the whole encoding makes is what is recalled of the record. -/
theorem recalled_of_decode {made : Record} {there : Cursor} (formed : record.isWellFormed = true)
    (built : ∀ schema, context.schema = some schema → schema.IsBuilt)
    (named : record.IsNamed context) (run : record.encode context = .ok bytes)
    (small : bytes.length < 2 ^ 63)
    (decoded : decode context bytes none Record.new = .ok () ⟨there, made⟩) :
    ∃ calls, record.emission context 0 [] = ⟨bytes, calls, .ok ()⟩ ∧
      record.recalled context [] = some (made, calls) := by
  have coherent (schema : Snapshot) (known : context.schema = some schema) : schema.IsCoherent :=
    (built schema known).isCoherent
  obtain ⟨calls, emitted⟩ := encode_eq_ok run
  exact ⟨calls, emitted,
    recalled_of_decodeFrom formed coherent named emitted (Holds.whole bytes) small decoded⟩

/-- If something is recalled of the record, the whole encoding is decoded to it. -/
theorem decode_of_recalled {made : Record} {last : List LinkTarget}
    (formed : record.isWellFormed = true)
    (built : ∀ schema, context.schema = some schema → schema.IsBuilt)
    (named : record.IsNamed context) (run : record.encode context = .ok bytes)
    (small : bytes.length < 2 ^ 63) (recalled : record.recalled context [] = some (made, last)) :
    decode context bytes none Record.new = .ok () ⟨⟨bytes.length, bytes.length⟩, made⟩ := by
  rcases decode_encode_cases (fun schema known => (built schema known).isCoherent) formed named run
    small with ⟨made', calls, -, recalled', decoded⟩ | ⟨none, -⟩
  · rw [recalled] at recalled'
    cases recalled'
    exact decoded
  · rw [recalled] at none
    cases none

/-- If nothing is lost, what is recalled is the normal form. -/
theorem recalled_normal {start : Nat} {earlier calls : List LinkTarget}
    (faithful : ∀ registry, context.registry = some registry → registry.IsFaithful)
    (classed : record.className ≠ some "")
    (lossless : ∀ w ∈ record.written context, Lossless context w)
    (run : record.emission context start earlier = ⟨bytes, calls, .ok ()⟩)
    (short : bytes.length < 2 ^ 31) :
    Agrees (record.recalled context) (record.normal context) earlier (earlier ++ calls) :=
  (agreeing_body faithful context.options.maxDepth).record classed lossless run short

/-- Decoding what was encoded ends behind the last byte with each of them handed out once, if it
succeeds; if it is exact, it does, and gives the normal form. -/
theorem readingInto_encode {exact : Prop} (formed : record.isWellFormed = true)
    (built : ∀ schema, context.schema = some schema → schema.IsBuilt)
    (named : record.IsNamed context) (restorable : exact → record.IsRestorable context)
    (faithful : exact → ∀ registry, context.registry = some registry → registry.IsFaithful)
    (run : record.encode context = .ok bytes) (short : bytes.length < 2 ^ 31) :
    Ends exact context.RefusesWith ⟨bytes.length, bytes.length⟩
      (fun made => exact → (record.normal context []).1 = made)
      (readingInto context bytes none Record.new Cursor.start) := by
  have coherent (schema : Snapshot) (known : context.schema = some schema) : schema.IsCoherent :=
    (built schema known).isCoherent
  obtain ⟨calls, emitted⟩ := encode_eq_ok run
  -- what is recalled is the normal form, with the same calls
  have agrees (exactly : exact) : Agrees (record.recalled context) (record.normal context) []
      ([] ++ calls) :=
    recalled_normal (faithful exactly) ((restorable exactly).classed record List.mem_cons_self)
      (lossless_written (restorable exactly)) emitted short
  have ends : Ends exact _ _ _ _ :=
    readingInto_recalled coherent formed named run (by omega) fun exactly => by
      obtain ⟨made, recalled, -⟩ := agrees exactly
      rw [recalled]
      rfl
  -- what is read is what is recalled, and so it is the normal form
  refine ends.mono rfl fun made fact exactly => ?_
  obtain ⟨calls', -, recalled⟩ := fact
  obtain ⟨made', recalled', normal⟩ := agrees exactly
  rw [recalled] at recalled'
  cases recalled'
  rw [normal]

/-- Decoding what was encoded fails for want of budget only if a factory refuses something with
that. -/
theorem isOverlap_of_decode (formed : record.isWellFormed = true)
    (built : ∀ schema, context.schema = some schema → schema.IsBuilt)
    (named : record.IsNamed context) (run : record.encode context = .ok bytes)
    (short : bytes.length < 2 ^ 31) {e : Failure} {state : Binding}
    (failed : decode context bytes none Record.new = .error e state) :
    e.isOverlap = false ∨ context.RefusesWith e := by
  have ends : Ends False _ _ _ _ := readingInto_encode formed built named False.elim False.elim
    run short
  rw [(decodeFrom_error_iff context bytes none).mp ⟨_, failed⟩] at ends
  exact ends.2

/-- **Decoding what was encoded hands out each byte once.**  Where it succeeds it ends behind the
last byte with the whole budget used up, and where it fails it is never for want of budget, unless
that is what a registered factory said that the decoding called. -/
theorem decode_encode_visited (formed : record.isWellFormed = true)
    (built : ∀ schema, context.schema = some schema → schema.IsBuilt)
    (named : record.IsNamed context) (run : record.encode context = .ok bytes)
    (short : bytes.length < 2 ^ 31) :
    (∀ state, decode context bytes none Record.new = .ok () state →
      state.cursor.position = bytes.length ∧ state.cursor.visited = bytes.length) ∧
    (∀ e state, decode context bytes none Record.new = .error e state → e.isOverlap = false ∨
      Refusal context.registry
        (fun other => decode (context.registering other) bytes none Record.new) state e) := by
  constructor
  · intro state decoded
    have ends : Ends False _ _ _ _ := readingInto_encode formed built named False.elim False.elim
      run short
    rw [(decodeFrom_ok_iff context bytes none).mp decoded] at ends
    rw [ends.1]
    exact ⟨rfl, rfl⟩
  · intro e state failed
    rcases decodeFrom_muted failed with said | failed
    · exact Or.inr said
    · -- with all factories muted the encoding is the same, and no factory speaks of the budget
      have built : ∀ schema, context.muted.schema = some schema → schema.IsBuilt := built
      have named : record.IsNamed context.muted := by
        rw [IsNamed, levels_muted]
        exact named
      rw [← record.encode_muted context] at run
      rcases isOverlap_of_decode formed built named run short failed with known | refuses
      · exact Or.inl known
      · rw [Context.eq_of_refuses_muted refuses]
        exact Or.inl rfl

/-- Both bodies of a map and an object are read once each; where the factory has nothing to make an
object of, decoding fails, and not for want of budget. -/
theorem decode_encode_visited_of_map :
    let factory : CustomFactory := fun stream =>
      if stream = [] then .error "nothing to make" else .ok ⟨"K", stream⟩
    let context : Context := { registry := some ⟨[("K", factory)], []⟩ }
    let full : Record := ⟨none, RecordId.empty,
      [⟨"m", .embeddedMap [("a", .byte 5), ("b", .null)], some .embeddedMap⟩,
        ⟨"o", .custom "K" [1], some .custom⟩], false⟩
    let bytes : List UInt8 := [0, 1, 109, 0, 0, 0, 16, 12, 1, 111, 0, 0, 0, 34, 20, 0, 2, 7, 1, 97, 0,
      0, 0, 33, 17, 7, 1, 98, 0, 0, 0, 0, 0, 5, 1, 75, 1, 1]
    let bare : Record := ⟨none, RecordId.empty, [⟨"o", .custom "K" [], none⟩], false⟩
    let few : List UInt8 := [0, 1, 111, 0, 0, 0, 9, 20, 0, 1, 75, 0]
    full.encode context = .ok bytes ∧
      decode context bytes none Record.new = .ok () ⟨⟨38, 38⟩, full⟩ ∧
      (38 = bytes.length ∧ 38 = bytes.length) ∧
      bare.encode context = .ok few ∧
      ∃ state, decode context few none Record.new = .error "nothing to make" state ∧
        (Failure.isOverlap "nothing to make" = false ∨ Refusal context.registry
          (fun other => decode (context.registering other) few none Record.new) state
          "nothing to make") := by
  intro factory context full bytes bare few
  have run : full.encode context = .ok bytes := eq_ok_of_toOption (by decide +kernel)
  have runs : bare.encode context = .ok few := eq_ok_of_toOption (by decide +kernel)
  have named : full.IsNamed context ∧ bare.IsNamed context := by
    unfold IsNamed
    decide
  have built (schema : Snapshot) (known : context.schema = some schema) : schema.IsBuilt := by
    cases known
  have recalled : full.recalled context [] = some (full, []) := by
    subst full context factory
    rfl
  have decoded : decode context bytes none Record.new = .ok () ⟨⟨38, 38⟩, full⟩ :=
    decode_of_recalled rfl built named.1 run (by decide) recalled
  have failed : ∃ state, decode context few none Record.new = .error "nothing to make" state := by
    refine ⟨⟨⟨12, 11⟩, Record.new⟩, ?_⟩
    subst few context factory
    rfl
  have visited := decode_encode_visited rfl built named.1 run (by decide)
  have refused := decode_encode_visited rfl built named.2 runs (by decide)
  obtain ⟨state, failed⟩ := failed
  exact ⟨run, decoded, visited.1 _ decoded, runs, state, failed, refused.2 _ state failed⟩

/-- The factory decodes its stream, and hands on what that decoding fails for: the body of the
stream's one field lies in its header, so its bytes are too few. -/
theorem decode_encode_overlap_of_factory :
    let nesting : CustomFactory := fun stream =>
      match decode {} stream none Record.new with
      | .ok _ _ => .ok ⟨"K", stream⟩
      | .error e _ => .error e
    let context : Context := { registry := some ⟨[("K", nesting)], []⟩ }
    let stream : List UInt8 := [0, 1, 97, 0, 0, 0, 1, 17, 0]
    let record : Record := ⟨none, RecordId.empty, [⟨"o", .custom "K" stream, none⟩], false⟩
    let bytes : List UInt8 := [0, 1, 111, 0, 0, 0, 9, 20, 0, 1, 75, 9] ++ stream
    record.isWellFormed = true ∧ record.IsNamed context ∧ record.encode context = .ok bytes ∧
      bytes.length < 2 ^ 31 ∧
      ∃ e state, decode context bytes none Record.new = .error e state ∧ e.isOverlap = true := by
  intro nesting context stream record bytes
  have named : record.IsNamed context := by
    unfold IsNamed
    decide
  have run : record.encode context = .ok bytes := eq_ok_of_toOption (by decide +kernel)
  have failed : decode context bytes none Record.new
      = .error (.codec (.malformedInput 8 (.overlap 9))) ⟨⟨21, 20⟩, Record.new⟩ := by
    subst bytes stream context nesting
    rfl
  exact ⟨rfl, named, run, by decide, _, _, failed, rfl⟩

end Record
end DocumentCodec
