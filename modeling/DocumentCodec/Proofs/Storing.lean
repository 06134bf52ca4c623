import DocumentCodec.Proofs.RoundTrip
import DocumentCodec.Proofs.Storing.Reading
/-!
# Storing again what was decoded

A reader takes more than a writer makes.  But whatever it accepts, the record can be stored again,
and is then decoded without change, but for the null fields that were pinned to `transient` by a
body of no bytes.

Nothing is asked of the input but that it is short: what was decoded from it is written in less than
twice its bytes, and every body must begin where a slot can point.
-/

namespace DocumentCodec.Record

variable {maxDepth : Nat} {input : List UInt8} {made : Record} {there : Cursor}

/-- What was decoded on its own is kept, and takes less than twice the bytes of the input. -/
theorem kept_of_decode
    (decoded : decode (Context.bare maxDepth) input none Record.new = .ok () ⟨there, made⟩) :
    KeptRecord maxDepth (Encoding.writeBody (Context.bare maxDepth) maxDepth)
      (Recall.body (Context.bare maxDepth) maxDepth) made ∧
      made.isEmbedded = false ∧ made.bulk < 2 * input.length := by
  have metered := Decoding.record_bulk (Decoding.stored_body maxDepth input maxDepth)
  obtain ⟨spent, price, ⟨kept, free, light⟩, within, -⟩ :=
    metered.ok ((decodeFrom_ok_iff (Context.bare maxDepth) input none).mp decoded)
  have within : there.visited ≤ input.length := within (Nat.zero_le _)
  have price : there.visited = 0 + spent := price
  exact ⟨kept, free, by omega⟩

/-- **Whatever decodes can be stored again without change.**  The record that was decoded from any
input is encoded, and the encoding is decoded to the same record but for the null fields that were
pinned to `transient`. -/
theorem decode_encode_decode
    (decoded : decode (Context.bare maxDepth) input none Record.new = .ok () ⟨there, made⟩)
    (short : input.length < 2 ^ 29) :
    ∃ bytes, made.encode (Context.bare maxDepth) = .ok bytes ∧
      decode (Context.bare maxDepth) bytes none Record.new
        = .ok () ⟨⟨bytes.length, bytes.length⟩, made.tidied⟩ := by
  -- the budget bounds what was read, so it can be written within the reach of a pointer
  obtain ⟨kept, free, light⟩ := kept_of_decode decoded
  obtain ⟨bytes, size, written⟩ := kept.writes 0 (by omega)
  have emitted : made.emission (Context.bare maxDepth) 0 [] = ⟨bytes, [], .ok ()⟩ := written []
  have run : made.encode (Context.bare maxDepth) = .ok bytes := by
    rw [encode, emitted]
    rfl
  -- no field that was read is without a name, at any level
  have named : made.IsNamed (Context.bare maxDepth) := by
    intro level among
    rcases List.mem_cons.mp among with rfl | inside
    · exact fun field there => (kept.kept field there).named
    · obtain ⟨w, there, holds⟩ := List.mem_filterMap.mp inside
      exact (kept.readable w there).named level holds
  have recalled : made.recalled (Context.bare maxDepth) [] = some (made.tidied, []) := by
    rw [made.tidied_eq, kept.unidentified, free]
    exact kept.recalls []
  refine ⟨bytes, run, ?_⟩
  exact decode_of_recalled kept.formed (fun schema none => by cases none) named run (by omega)
    recalled

/-- What an input becomes that is decoded and encoded again, if both succeed. -/
def recode? (context : Context) (input : List UInt8) : Option (List UInt8) :=
  match decode context input none Record.new with
  | .ok _ state => (state.target.encode context).toOption
  | .error _ _ => none

/-- What was decoded and encoded again was decoded to something, and that was encoded. -/
theorem of_recode?_eq_some {context : Context} {bytes : List UInt8}
    (run : recode? context input = some bytes) : ∃ there made,
      decode context input none Record.new = .ok () ⟨there, made⟩ ∧
        made.encode context = .ok bytes := by
  rw [recode?] at run
  cases decoded : decode context input none Record.new with
  | error e state =>
    rw [decoded] at run
    cases run
  | ok _ state =>
    rw [decoded] at run
    exact ⟨state.cursor, state.target, rfl, eq_ok_of_toOption run⟩

/-- Numbers in more bytes than they need, a name that stands twice, a decimal of no bytes, and null
fields that are pinned to `transient`, in the record and in one inside it: stored again, each number
is short and the null fields are gone. -/
theorem decode_encode_decode_of_padded :
    let input : List UInt8 := [128, 0, 1, 97, 0, 0, 0, 38, 1, 1, 116, 0, 0, 0, 1, 18,
      1, 97, 0, 0, 0, 1, 7, 1, 100, 0, 0, 0, 40, 21, 1, 101, 0, 0, 0, 48, 9, 0,
      133, 0, 0, 0, 0, 0, 0, 0, 0, 0, 0, 1, 116, 0, 0, 0, 1, 18, 0]
    let bytes : List UInt8 := [0, 1, 97, 0, 0, 0, 23, 1, 1, 100, 0, 0, 0, 24, 21,
      1, 101, 0, 0, 0, 33, 9, 0, 5, 0, 0, 0, 0, 0, 0, 0, 1, 0, 0, 0]
    ∃ there made, decode (Context.bare 8) input none Record.new = .ok () ⟨there, made⟩ ∧
      made.encode (Context.bare 8) = .ok bytes ∧
      decode (Context.bare 8) bytes none Record.new
        = .ok () ⟨⟨bytes.length, bytes.length⟩, made.tidied⟩ := by
  intro input bytes
  have recoded : recode? (Context.bare 8) input = some bytes := by decide +kernel
  obtain ⟨there, made, decoded, run⟩ := of_recode?_eq_some recoded
  obtain ⟨bytes', run', again⟩ := decode_encode_decode decoded (by decide)
  rw [run] at run'
  cases run'
  exact ⟨there, made, decoded, run, again⟩

end DocumentCodec.Record
