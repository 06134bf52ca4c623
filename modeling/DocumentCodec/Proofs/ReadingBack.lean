import DocumentCodec.Proofs.Numbers
import DocumentCodec.Proofs.Running
/-!
# Reading back what was written

A reader reads bytes back when, standing where they begin with enough of the budget left for them,
it hands out each of them once and stops behind them.  That is said of a place in an input that
holds more than these bytes, because bodies stand in the middle of other bodies.

Reading back may be *exact*: then there is an answer, and it is the one asked for.  Otherwise a
failure is allowed too, when an application's own object cannot be made, say; but never one of the
codec's own that says that too much was read.  A factory may say so of another input, so what the
registered factories say is a parameter.

`ReadsBack` is closed under sequences, where the bytes are those of the parts one behind the other.
-/

namespace DocumentCodec

/-! ## Bytes in an input

Bytes that stand at a place are said to be there by what is before and behind them, so the parts of
bytes stand where they should without any reckoning of indices. -/

/-- From `start` on the input holds `bytes`. -/
def Holds (input : List UInt8) (start : Nat) (bytes : List UInt8) : Prop :=
  ∃ before after, input = before ++ bytes ++ after ∧ before.length = start

namespace Holds

variable {input bytes more : List UInt8} {start : Nat}

theorem whole (input : List UInt8) : Holds input 0 input :=
  ⟨[], [], by rw [List.nil_append, List.append_nil], rfl⟩

theorem left (holds : Holds input start (bytes ++ more)) : Holds input start bytes := by
  obtain ⟨before, after, rfl, place⟩ := holds
  exact ⟨before, more ++ after, by simp only [List.append_assoc], place⟩

theorem right (holds : Holds input start (bytes ++ more)) :
    Holds input (start + bytes.length) more := by
  obtain ⟨before, after, rfl, rfl⟩ := holds
  exact ⟨before ++ bytes, after, by simp only [List.append_assoc], List.length_append⟩

theorem bound (holds : Holds input start bytes) : start + bytes.length ≤ input.length := by
  obtain ⟨before, after, rfl, rfl⟩ := holds
  rw [List.length_append, List.length_append]
  omega

theorem drop (holds : Holds input start bytes) : ∃ after, input.drop start = bytes ++ after := by
  obtain ⟨before, after, rfl, rfl⟩ := holds
  exact ⟨after, by rw [List.append_assoc, List.drop_left]⟩

/-- Bytes at their place and more bytes behind them are all of them at the place of the first. -/
theorem append (first : Holds input start bytes) (second : Holds input (start + bytes.length) more) :
    Holds input start (bytes ++ more) := by
  obtain ⟨before, after, rfl, rfl⟩ := first
  obtain ⟨after', behind⟩ := second.drop
  rw [← List.length_append, List.drop_left] at behind
  exact ⟨before, after', by rw [behind]; simp only [List.append_assoc], rfl⟩

/-- Bytes that are taken from an input stand in it. -/
theorem take {count : Nat} (inside : start ≤ input.length) :
    Holds input start ((input.drop start).take count) := by
  refine ⟨input.take start, (input.drop start).drop count, ?_, List.length_take_of_le inside⟩
  rw [List.append_assoc, List.take_append_drop, List.take_append_drop]

end Holds

/-! ## How reading back ends

Either the cursor is behind the bytes with each of them counted once, or the reading failed, and
then not for want of budget. -/

/-- The failure says that more was read than the input has. -/
def Failure.isOverlap : Failure → Bool
  | .codec (.malformedInput _ (.overlap _)) => true
  | _ => false

/-- What is said where there is nobody to say anything. -/
def Failure.Unsaid (_ : Failure) : Prop := False

/-- A reading ends at `after` with an answer that `post` says; unless it is exact, it may fail
instead, but not for want of budget, unless that is `said` by a factory. -/
def Ends {α : Type} (exact : Prop) (said : Failure → Prop) (after : Cursor) (post : α → Prop) :
    EStateM.Result Failure Cursor α → Prop
  | .ok a there => there = after ∧ post a
  | .error e _ => ¬exact ∧ (e.isOverlap = false ∨ said e)

namespace Ends

variable {α β : Type} {exact : Prop} {said : Failure → Prop} {here mid after : Cursor}
  {p : α → Prop} {q : β → Prop}

/-- What the second reading ends like is what the sequence ends like: a failure of the first one is
a failure of the whole. -/
theorem bind {read : Decoder α} {f : α → Decoder β} (first : Ends exact said mid p (read here))
    (second : ∀ a, p a → Ends exact said after q (f a mid)) :
    Ends exact said after q ((read >>= f) here) := by
  cases run : read here with
  | ok a there =>
    rw [run] at first
    obtain ⟨rfl, fact⟩ := first
    rw [run_bind_of_ok run]
    exact second a fact
  | error e there =>
    rw [run] at first
    rw [run_bind_of_error run]
    exact first

/-- The place may be said in another way, and the fact may be weakened. -/
theorem mono {outcome : EStateM.Result Failure Cursor α} {p' : α → Prop} {after' : Cursor}
    (ends : Ends exact said after p outcome) (place : after = after') (weaker : ∀ a, p a → p' a) :
    Ends exact said after' p' outcome := by
  subst place
  cases outcome with
  | ok a there => exact ⟨ends.1, weaker a ends.2⟩
  | error e there => exact ends

/-- An exact reading gives the answer. -/
theorem of_exact {outcome : EStateM.Result Failure Cursor α}
    (ends : Ends True said after p outcome) : ∃ a, outcome = .ok a after ∧ p a := by
  cases outcome with
  | ok a there =>
    obtain ⟨rfl, fact⟩ := ends
    exact ⟨a, rfl, fact⟩
  | error e there => exact absurd trivial ends.1

end Ends

/-- Standing where the input holds `bytes`, the reading hands out each of them once and stops
behind them. -/
def ReadsBack {α : Type} (exact : Prop) (said : Failure → Prop) (input : List UInt8)
    (read : Decoder α) (start : Nat) (bytes : List UInt8) (post : α → Prop) : Prop :=
  Holds input start bytes → ∀ visited, visited + bytes.length ≤ input.length →
    Ends exact said ⟨start + bytes.length, visited + bytes.length⟩ post (read ⟨start, visited⟩)

namespace ReadsBack

variable {α β : Type} {exact : Prop} {said : Failure → Prop} {input bytes more : List UInt8}
  {start : Nat}
  {p : α → Prop} {q : β → Prop}

/-! ## Sequences -/

theorem pure {a : α} (fact : p a) :
    ReadsBack exact said input (Pure.pure a : Decoder α) start [] p :=
  fun _ _ _ => ⟨rfl, fact⟩

/-- **Sequences.**  What was written in two steps is read back in two: each finds its bytes where
the other left off, and as much budget as it has bytes to visit. -/
theorem bind {read : Decoder α} {f : α → Decoder β}
    (first : ReadsBack exact said input read start bytes p)
    (second : ∀ a, p a → ReadsBack exact said input (f a) (start + bytes.length) more q) :
    ReadsBack exact said input (read >>= f) start (bytes ++ more) q := by
  intro holds visited room
  rw [List.length_append] at room
  refine (first holds.left visited (by omega)).bind fun a fact => ?_
  rw [List.length_append, ← Nat.add_assoc, ← Nat.add_assoc]
  exact second a fact holds.right (visited + bytes.length) (by omega)

/-- What is made of an answer is read back with it. -/
theorem map {read : Decoder α} {f : α → β} (first : ReadsBack exact said input read start bytes p)
    (made : ∀ a, p a → q (f a)) :
    ReadsBack exact said input (read >>= fun a => Pure.pure (f a)) start bytes q :=
  fun holds visited room =>
    (first holds visited room).bind fun a fact => ⟨rfl, made a fact⟩

theorem mono {read : Decoder α} {p' : α → Prop}
    (back : ReadsBack exact said input read start bytes p)
    (weaker : ∀ a, p a → p' a) : ReadsBack exact said input read start bytes p' :=
  fun holds visited room => (back holds visited room).mono rfl weaker

/-- A check of an answer that reads nothing more. -/
theorem check {read : Decoder α} {f : α → Decoder β}
    (first : ReadsBack exact said input read start bytes p)
    (second : ∀ a, p a → ReadsBack exact said input (f a) (start + bytes.length) [] q) :
    ReadsBack exact said input (read >>= f) start bytes q := by
  have both := first.bind second
  rw [List.append_nil] at both
  exact both

/-- A reading that looks where it stands first. -/
theorem offset_bind {f : Nat → Decoder β}
    (second : ReadsBack exact said input (f start) start bytes q) :
    ReadsBack exact said input (Cursor.offset >>= f) start bytes q := second

/-- What is known of the input may be used. -/
theorem of_holds {read : Decoder α}
    (back : Holds input start bytes → ReadsBack exact said input read start bytes p) :
    ReadsBack exact said input read start bytes p :=
  fun holds => back holds holds

/-! ## The primitives -/

/-- Taking as many bytes as were written gives those bytes. -/
theorem take {count : Nat} (size : bytes.length = count) :
    ReadsBack exact said input (Cursor.take input count) start bytes (· = bytes) := by
  intro holds visited room
  obtain ⟨after, rest⟩ := holds.drop
  subst size
  rw [Cursor.run_take input holds.bound room]
  refine ⟨rfl, ?_⟩
  rw [rest, List.take_left]

theorem byte (b : UInt8) : ReadsBack exact said input (Cursor.byte input) start [b] (· = b) :=
  (take rfl).map fun _ same => by rw [same]; rfl

/-- An unsigned number comes back whatever stands behind it, since its own bytes say where it ends.
-/
theorem varint (v : UInt64) :
    ReadsBack exact said input (Cursor.varint input) start (Varint.encode v) (· = v) := by
  intro holds visited room
  obtain ⟨after, rest⟩ := holds.drop
  rw [Cursor.varint_eq, run_bind_of_ok (Cursor.run_offset _), rest, Varint.decode_encode_append]
  exact (((take rfl).map (q := fun _ => True) fun _ _ => trivial).map (q := (· = v))
    fun _ _ => rfl) holds visited room

/-! ## Words and lengths

What was written fits the width that is read, so no range is missed and the check of it passes. -/

theorem signedVarint (v : Int64) :
    ReadsBack exact said input (Cursor.signedVarint input) start (Varint.encodeSigned v) (· = v) :=
  (varint v.toUInt64).map fun _ same => by rw [same, Int64.toInt64_toUInt64]

/-- A signed number that fits into 32 bits comes back as one of 32 bits; a wider one would be
refused. -/
theorem varint32 {v : Int64} (fits : Signed.Fits32 v.toInt) :
    ReadsBack exact said input (Cursor.varint32 input) start (Varint.encodeSigned v)
      (· = v.toInt32) := by
  refine offset_bind ((signedVarint v).check fun _ same => ?_)
  subst same
  rw [if_pos fits]
  exact pure rfl

/-- The same for 16 bits. -/
theorem varint16 {v : Int64} (fits : Signed.Fits16 v.toInt) :
    ReadsBack exact said input (Cursor.varint16 input) start (Varint.encodeSigned v)
      (· = v.toInt16) := by
  refine offset_bind ((signedVarint v).check fun _ same => ?_)
  subst same
  rw [if_pos fits]
  exact pure rfl

/-- A number below the range of the sign comes back as it is. -/
theorem number {n : Nat} (fits : n < 2 ^ 31) :
    ReadsBack exact said input (Cursor.varint32 input) start
    (Varint.encode (UInt64.ofNat n)) (fun v => v.toInt = n) := by
  have word : (Int64.ofNat n).toInt = n := Int64.toInt_ofNat_of_lt (by omega)
  have narrow : (Int64.ofNat n).toInt32.toInt = n := by
    rw [Int64.toInt_toInt32, word]
    exact Int.bmod_eq_of_le (by omega) (by omega)
  have low : Signed.Fits32 (Int64.ofNat n).toInt := by
    rw [word]
    omega
  exact (varint32 low).mono fun _ same => same ▸ narrow

/-- A number below 2^31 comes back as the length it was; a larger one would be read as negative. -/
theorem length {n : Nat} (fits : n < 2 ^ 31) :
    ReadsBack exact said input (Cursor.length input) start
    (Varint.encode (UInt64.ofNat n)) (· = n) := by
  refine offset_bind ((number fits).check fun _ same => ?_)
  rw [if_pos (by omega), same]
  exact pure rfl

/-- A number from the range of the sign on is refused as a length. -/
theorem wide {n : Nat} (wide : 2 ^ 31 ≤ n) (word : n < 2 ^ 63) (inexact : ¬exact) :
    ReadsBack exact said input (Cursor.varint32 input) start (Varint.encode (UInt64.ofNat n))
      fun _ => False := by
  have whole : (Int64.ofNat n).toInt = n := Int64.toInt_ofNat_of_lt word
  have refused : ¬Signed.Fits32 (Int64.ofNat n).toInt := by
    rw [whole]
    omega
  refine offset_bind ((signedVarint (Int64.ofNat n)).check fun _ same => ?_)
  subst same
  rw [if_neg refused]
  exact fun _ _ _ => ⟨inexact, Or.inl rfl⟩

/-- A word of four bytes comes back. -/
theorem word32 (w : UInt32) :
    ReadsBack exact said input (Cursor.word32 input) start (BigEndian.encode32 w) (· = w) :=
  (take (BigEndian.length_encode 4 _)).map fun _ same => by
    rw [same]
    exact BigEndian.decode_encode32 w

/-- A word of eight bytes comes back. -/
theorem word64 (w : UInt64) :
    ReadsBack exact said input (Cursor.word64 input) start (BigEndian.encode64 w) (· = w) :=
  (take (BigEndian.length_encode 8 _)).map fun _ same => by
    rw [same]
    exact BigEndian.decode_encode64 w

/-- A tag comes back, since no two of them share an id. -/
theorem tag (tag : TypeTag) :
    ReadsBack exact said input (Cursor.tag input) start [tag.id] (· = tag) := by
  refine offset_bind ((byte tag.id).check fun _ same => ?_)
  subst same
  rw [TypeTag.ofId?_id]
  exact pure rfl

end ReadsBack
end DocumentCodec
