import DocumentCodec.Proofs.Bounded
import DocumentCodec.Proofs.Lockstep
import DocumentCodec.Proofs.RoundTrip
/-!
# Cut off input

Input that was cut off is read in step with the whole of it: what still stands before the cut is
handed out as before, and what does not is refused as malformed.  Hence a decoding of the cut input
either goes exactly as that of the whole, or its failure says that the bytes are no record.

The whole of what was encoded is decoded by handing out every one of its bytes.  No decoding hands
out more than its input has, so the cut input cannot be decoded as the whole is.
-/

namespace DocumentCodec

/-- The failure says that the bytes are no record. -/
def Failure.IsMalformed (e : Failure) : Prop :=
  ∃ offset reason, e = .codec (.malformedInput offset reason)

theorem Failure.isMalformed (offset : Nat) (reason : Malformation) :
    IsMalformed (.codec (.malformedInput offset reason)) := ⟨offset, reason, rfl⟩

/-! ## Words before the cut

A word whose bytes all stand before the cut is read from either, and one that does not is refused
for the bytes it is short of. -/

namespace Varint

/-- Groups that end before the cut are read as before. -/
theorem readGroups_take : ∀ (bytes : List UInt8) (left index : Nat) (number : Nat × Nat),
    readGroups index (bytes.take left) = .ok number → readGroups index bytes = .ok number := by
  intro bytes
  induction bytes with
  | nil =>
    intro left index number read
    rw [List.take_nil] at read
    exact read
  | cons b rest ih =>
    intro left index number read
    cases left with
    | zero => cases read
    | succ left =>
      obtain ⟨n, count⟩ := number
      rw [List.take_succ_cons, readGroups_cons_eq_ok] at read
      obtain ⟨few, fits, last | ⟨more, high, fewer, deeper, same⟩⟩ := read
      · exact readGroups_cons_eq_ok.mpr ⟨few, fits, Or.inl last⟩
      · -- the groups behind this one end before the cut too
        have whole := ih left (index + 1) (high, fewer) deeper
        exact readGroups_cons_eq_ok.mpr ⟨few, fits, Or.inr ⟨more, high, fewer, whole, same⟩⟩

/-- What the first bytes of an input spell the whole input spells too. -/
theorem decode_take {bytes : List UInt8} {left : Nat} {word : UInt64 × Nat}
    (read : decode (bytes.take left) = .ok word) : decode bytes = .ok word := by
  rw [decode] at read ⊢
  cases groups : readGroups 0 (bytes.take left) with
  | error e =>
    rw [groups] at read
    cases read
  | ok number =>
    rw [groups] at read
    rw [readGroups_take bytes left 0 number groups]
    exact read

end Varint

/-! ## Taking bytes and jumping

What is handed out before the cut is the same; behind it nothing is handed out, and a jump there is
refused. -/

namespace Cursor

variable (input : List UInt8) {left : Nat}

/-- Bytes before the cut are handed out as before, and beyond it there are none. -/
theorem follows_take (count : Nat) :
    Follows Failure.IsMalformed (take input count) (take (input.take left) count) where
  run here := by
    cases run : take (input.take left) count here with
    | ok bytes there =>
      obtain ⟨inside, allowed, rfl, rfl⟩ := of_take_ok _ run
      rw [List.length_take] at inside allowed
      refine Or.inl ?_
      rw [run_take input (by omega) (by omega), List.drop_take, List.take_take,
        Nat.min_eq_left (by omega)]
    | error e there =>
      -- bytes that are not there and bytes beyond the budget are both refused as malformed
      obtain ⟨-, reason, rfl⟩ := of_take_error _ run
      exact Or.inr ⟨_, there, rfl, Failure.isMalformed _ _⟩

/-- A jump stays before the cut, or it is refused. -/
theorem follows_seek (target : Nat) :
    Follows Failure.IsMalformed (seek input target) (seek (input.take left) target) where
  run here := by
    have length : (input.take left).length = min left input.length := List.length_take
    by_cases inside : target ≤ (input.take left).length
    · refine Or.inl ?_
      rw [run_seek _ inside, run_seek input (by omega)]
    · refine Or.inr ⟨_, here, ?_, Failure.isMalformed here.position
        (.seekBeyondEnd target (input.take left).length)⟩
      show (if (input.take left).length < target then _ else _ : Decoder Unit) here = _
      rw [if_pos (Nat.lt_of_not_le inside)]
      rfl

/-- A varint is read alike from the shorter input, or it is not all there, which is malformed. -/
theorem follows_varint :
    Follows Failure.IsMalformed (varint input) (varint (input.take left)) := by
  rw [varint_eq, varint_eq]
  refine .same_bind fun start => ?_
  rw [List.drop_take]
  cases read : Varint.decode ((input.drop start).take (left - start)) with
  | error cause => exact .throw (Failure.isMalformed _ _)
  | ok word =>
    rw [Varint.decode_take read]
    exact ((follows_take input word.2).map).map

end Cursor

/-! ## Whole decodings

A decoding that goes as that of the whole would hand out as many bytes as the whole has, and the cut
input has fewer. -/

/-- Input that is cut off is read in step with the whole of it. -/
theorem Lockstep.truncated (context : Context) (input : List UInt8) (left : Nat) :
    Lockstep Failure.IsMalformed context context input (input.take left) where
  take := Cursor.follows_take input
  seek := Cursor.follows_seek input
  varint := Cursor.follows_varint input
  shorter := List.length_take_le' left input
  exhausted _ start := Failure.isMalformed start _
  property _ := Or.inl rfl
  registry := rfl
  zone := rfl

namespace Record

variable {context : Context} {record : Record} {bytes : List UInt8} {left : Nat}

/-- A decoding that goes through hands out no more than the input has. -/
theorem visited_le_of_decodeFrom {projection : Option (List String)} {here : Binding}
    {state : Binding} (decoded : decodeFrom context bytes projection here = .ok () state) :
    state.cursor.visited ≤ bytes.length := by
  have metered := Decoding.metered_record
    (Decoding.paid_body context bytes context.options.maxDepth) projection here.target
  obtain ⟨-, -, -, kept, -⟩ := metered.ok ((decodeFrom_ok_iff context bytes projection).mp decoded)
  exact kept (Nat.zero_le _)

/-- **Truncated data is always detected.**  Where the encoding of a record can be decoded, cutting
it off anywhere makes decoding fail, and the failure says that the bytes are no record. -/
theorem decode_take_malformed (formed : record.isWellFormed = true)
    (built : ∀ schema, context.schema = some schema → schema.IsBuilt)
    (named : record.IsNamed context) (run : record.encode context = .ok bytes)
    (small : bytes.length < 2 ^ 63) {state : Binding}
    (decoded : decode context bytes none Record.new = .ok () state) (cut : left < bytes.length) :
    ∃ offset reason partial', decode context (bytes.take left) none Record.new
      = .error (.codec (.malformedInput offset reason)) partial' := by
  have follows := (Lockstep.truncated context bytes left).decodeFrom (Nat.le_refl _)
    (fun less => absurd less (Nat.lt_irrefl _)) none
  rcases follows.run ⟨Cursor.start, Record.new⟩ with same | ⟨_, partial', failed, offset, reason, rfl⟩
  · -- the whole is decoded by handing out every byte, which are more than are left
    obtain ⟨calls, -, recalled⟩ := recalled_of_decode formed built named run small decoded
    have whole := decode_of_recalled formed built named run small recalled
    have few := visited_le_of_decodeFrom (same.trans whole)
    rw [List.length_take] at few
    dsimp only at few
    omega
  · exact ⟨offset, reason, partial', failed⟩

/-- A text with a letter of two bytes, a map with a member that has no body, and a list: wherever
the bytes are cut, in the header, in the letter, in the table of the map or in the last body, they
are no record. -/
theorem decode_take_malformed_of_map :
    let record : Record := ⟨some "C", RecordId.empty,
      [⟨"s", .string "é", none⟩, ⟨"m", .embeddedMap [("a", .byte 5), ("b", .null)], none⟩,
        ⟨"l", .embeddedList [.boolean true, .null], none⟩], false⟩
    let bytes : List UInt8 := [1, 67, 1, 115, 0, 0, 0, 24, 7, 1, 109, 0, 0, 0, 27, 12, 1, 108, 0, 0, 0,
      45, 10, 0, 2, 195, 169, 2, 7, 1, 97, 0, 0, 0, 44, 17, 7, 1, 98, 0, 0, 0, 0, 0, 5, 2, 23, 0, 1, 23]
    record.encode {} = .ok bytes ∧ ∀ left < bytes.length, ∃ offset reason partial',
      decode {} (bytes.take left) none Record.new
        = .error (.codec (.malformedInput offset reason)) partial' := by
  intro record bytes
  have run : record.encode {} = .ok bytes := eq_ok_of_toOption (by decide +kernel)
  have named : record.IsNamed {} := by
    unfold IsNamed
    decide
  have built (schema : Snapshot) (known : ({} : Context).schema = some schema) :
      schema.IsBuilt := by cases known
  have recalled : record.recalled {} [] = some (⟨some "C", RecordId.empty,
      [⟨"s", .string "é", some .string⟩,
        ⟨"m", .embeddedMap [("a", .byte 5), ("b", .null)], some .embeddedMap⟩,
        ⟨"l", .embeddedList [.boolean true, .null], some .embeddedList⟩], false⟩, []) := by
    subst record
    rfl
  have decoded := decode_of_recalled rfl built named run (by decide) recalled
  exact ⟨run, fun left cut =>
    decode_take_malformed rfl built named run (by decide) decoded cut⟩

end Record
end DocumentCodec
