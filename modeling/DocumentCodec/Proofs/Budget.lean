import DocumentCodec.Proofs.Numbers
import DocumentCodec.Proofs.Running
/-!
# The budget

What a reading does to the budget is the same whatever is read: it never hands out more bytes than
the input has, it never gives any back, and when it goes through it would have gone through alike
with more of the budget left.  `Metered` says so, together with a relation between the bytes that
were handed out and the answer, and it is closed under sequences; so each reader's share is one
short lemma, and readers that call each other only add up.
-/

namespace DocumentCodec

/-- A reading that stays within the budget.  `post spent a` relates the number of bytes that were
handed out to the answer. -/
structure Metered {α : Type} (input : List UInt8) (read : Decoder α) (post : Nat → α → Prop) :
    Prop where
  /-- an answer has its price, which is paid within the budget and does not depend on it -/
  ok : ∀ {here there a}, read here = .ok a there → ∃ spent,
    there.visited = here.visited + spent ∧ post spent a ∧
    (here.visited ≤ input.length → there.visited ≤ input.length) ∧
    ∀ less ≤ here.visited, read ⟨here.position, less⟩ = .ok a ⟨there.position, less + spent⟩
  /-- a failure leaves the budget kept -/
  error : ∀ {here there e}, read here = .error e there →
    here.visited ≤ input.length → there.visited ≤ input.length

namespace Metered

variable {α β : Type} {input : List UInt8}

/-! ## Sequences

The price of a sequence is that of its parts together, and its answer is related to that; so only
the relation has to be found, and never the bytes. -/

/-- The relation between price and answer may be weakened. -/
theorem mono {read : Decoder α} {p q : Nat → α → Prop} (metered : Metered input read p)
    (weaker : ∀ spent a, p spent a → q spent a) : Metered input read q where
  ok run := by
    obtain ⟨spent, paid, fact, kept, again⟩ := metered.ok run
    exact ⟨spent, paid, weaker spent _ fact, kept, again⟩
  error run := metered.error run

/-- An answer that is there already is free. -/
theorem pure {a : α} {p : Nat → α → Prop} (fact : p 0 a) :
    Metered input (Pure.pure a : Decoder α) p where
  ok run := by
    cases run
    exact ⟨0, rfl, fact, id, fun less _ => rfl⟩
  error run := by cases run

/-- Nothing is handed out where the reading is refused at once. -/
theorem throw {e : Failure} {p : Nat → α → Prop} :
    Metered input (MonadExcept.throw e : Decoder α) p where
  ok run := by cases run
  error run := by
    cases run
    exact id

theorem malformed {offset : Nat} {reason : Malformation} {p : Nat → α → Prop} :
    Metered input (Decoder.malformed offset reason : Decoder α) p := throw

/-- Prices add up. -/
theorem bind {read : Decoder α} {f : α → Decoder β} {p : Nat → α → Prop}
    {q : Nat → β → Prop} (first : Metered input read p)
    (second : ∀ a spent, p spent a → Metered input (f a) fun more b => q (spent + more) b) :
    Metered input (read >>= f) q where
  ok := by
    intro here there b run
    obtain ⟨a, mid, run₁, run₂⟩ := run_bind_eq_ok.mp run
    obtain ⟨spent, paid, fact, kept, again⟩ := first.ok run₁
    obtain ⟨more, paid', fact', kept', again'⟩ := (second a spent fact).ok run₂
    refine ⟨spent + more, by omega, fact', fun h => kept' (kept h), fun less le => ?_⟩
    rw [run_bind_of_ok (again less le), again' (less + spent) (by omega), Nat.add_assoc]
  error := by
    intro here there e run within
    rcases run_bind_eq_error.mp run with run₁ | ⟨a, mid, run₁, run₂⟩
    · exact first.error run₁ within
    · obtain ⟨spent, -, fact, kept, -⟩ := first.ok run₁
      exact (second a spent fact).error run₂ (kept within)

/-- What is made of an answer costs nothing. -/
theorem map {read : Decoder α} {p : Nat → α → Prop} {f : α → β} {q : Nat → β → Prop}
    (metered : Metered input read p) (made : ∀ spent a, p spent a → q spent (f a)) :
    Metered input (read >>= fun a => Pure.pure (f a)) q :=
  metered.bind fun a spent fact => pure (made spent a fact)

/-! ## The primitives

All that is handed out is handed out by taking it.  Everything else is free. -/

/-- To ask where one stands is free. -/
theorem offset {p : Nat → Nat → Prop} (free : ∀ here, p 0 here) :
    Metered input Cursor.offset p where
  ok run := by
    cases run
    exact ⟨0, rfl, free _, id, fun less _ => rfl⟩
  error run := by cases run

/-- A jump is free too: it changes the position only, and the budget is what counts the bytes. -/
theorem seek (target : Nat) : Metered input (Cursor.seek input target) fun spent _ => spent = 0 where
  ok run := by
    obtain ⟨inside, rfl⟩ := Cursor.of_seek_ok input run
    exact ⟨0, rfl, rfl, id, fun less _ => Cursor.run_seek input inside⟩
  error run within := by
    rw [(Cursor.of_seek_error input run).1]
    exact within

/-- **Taking bytes costs as many as are taken.**  All that is spent anywhere is spent here. -/
theorem take (count : Nat) : Metered input (Cursor.take input count)
    fun spent bytes => spent = count ∧ bytes.length = count where
  ok := by
    intro here there bytes run
    have whole := Cursor.length_of_take_ok input run
    obtain ⟨left, allowed, rfl, rfl⟩ := Cursor.of_take_ok input run
    refine ⟨count, rfl, ⟨rfl, whole⟩, fun _ => allowed, fun less le => ?_⟩
    have allowed : less + count ≤ input.length := by omega
    exact Cursor.run_take input left allowed
  error run within := by
    rw [(Cursor.of_take_error input run).1]
    exact within

theorem skip (count : Nat) : Metered input (Cursor.skip input count) fun spent _ => spent = count :=
  (take count).map fun _ _ fact => fact.1

theorem byte : Metered input (Cursor.byte input) fun spent _ => spent = 1 :=
  (take 1).map fun _ _ fact => fact.1

end Metered

/-- A varint has at least one byte. -/
theorem Varint.readGroups_count_pos {bytes : List UInt8} {index n count : Nat}
    (read : readGroups index bytes = .ok (n, count)) : 0 < count := by
  cases bytes with
  | nil => cases read
  | cons b rest =>
    obtain ⟨-, -, ⟨-, -, rfl⟩ | ⟨-, high, fewer, -, -, rfl⟩⟩ := readGroups_cons_eq_ok.mp read
    · exact Nat.one_pos
    · exact Nat.succ_pos fewer

/-- A number takes a byte at least, and as many as it can be spelled in. -/
theorem Varint.spelled_of_decode {bytes : List UInt8} {v : UInt64} {count : Nat}
    (spelled : decode bytes = .ok (v, count)) : 0 < count ∧ v.toNat < 128 ^ count := by
  rw [decode] at spelled
  cases groups : readGroups 0 bytes with
  | error cause =>
    rw [groups] at spelled
    cases spelled
  | ok number =>
    rw [groups] at spelled
    cases spelled
    refine ⟨readGroups_count_pos groups, ?_⟩
    have fits := lt_of_readGroups _ _ _ _ groups
    exact Nat.lt_of_le_of_lt (Nat.mod_le _ _) fits

namespace Metered

variable {input : List UInt8}

/-! ## Words, lengths and byte strings

Each of these takes a byte at least, which is what a list is bounded by.  Text takes as many bytes
as it spells, and more. -/

/-- A varint takes a byte at least, and as many as the number can be spelled in. -/
theorem varint_spelled : Metered input (Cursor.varint input)
    fun spent v => 0 < spent ∧ v.toNat < 128 ^ spent := by
  -- what is decoded depends on the position alone
  rw [Cursor.varint_eq]
  refine (offset (p := fun spent _ => spent = 0) fun _ => rfl).bind fun start spent free => ?_
  subst free
  cases spelled : Varint.decode (input.drop start) with
  | error cause => exact malformed
  | ok word =>
    obtain ⟨v, count⟩ := word
    refine (skip count).map fun more _ paid => ?_
    subst paid
    rw [Nat.zero_add]
    exact Varint.spelled_of_decode spelled

theorem varint : Metered input (Cursor.varint input) fun spent _ => 0 < spent :=
  varint_spelled.mono fun _ _ spelled => spelled.1

theorem signedVarint : Metered input (Cursor.signedVarint input) fun spent _ => 0 < spent :=
  varint.map fun _ _ paid => paid

/-- A reading whose answer is checked against the place it stands at. -/
theorem checked {α β : Type} {read : Decoder α} {f : Nat → α → Decoder β} {p : Nat → α → Prop}
    {q : Nat → β → Prop} (metered : Metered input read p)
    (check : ∀ start a spent, p spent a →
      Metered input (f start a) fun more b => q (spent + more) b) :
    Metered input (Cursor.offset >>= fun start => read >>= f start) q := by
  refine (offset (p := fun spent _ => spent = 0) fun _ => rfl).bind fun start spent free => ?_
  subst free
  simp only [Nat.zero_add]
  exact metered.bind (check start)

/-- A number has a byte at least. -/
theorem varint32 : Metered input (Cursor.varint32 input) fun spent _ => 0 < spent := by
  refine checked signedVarint fun start v spent paid => ?_
  split
  · exact pure paid
  · exact malformed

/-- A number has a byte at least. -/
theorem varint16 : Metered input (Cursor.varint16 input) fun spent _ => 0 < spent := by
  refine checked signedVarint fun start v spent paid => ?_
  split
  · exact pure paid
  · exact malformed

/-- A length has a byte at least. -/
theorem length : Metered input (Cursor.length input) fun spent _ => 0 < spent := by
  refine checked varint32 fun start v spent paid => ?_
  split
  · exact pure paid
  · exact malformed

theorem word32 : Metered input (Cursor.word32 input) fun spent _ => spent = 4 :=
  (take 4).map fun _ _ paid => paid.1

theorem word64 : Metered input (Cursor.word64 input) fun spent _ => spent = 8 :=
  (take 8).map fun _ _ paid => paid.1

/-- A byte string is paid for by its length besides. -/
theorem binary : Metered input (Cursor.binary input) fun spent bytes => bytes.length < spent :=
  length.bind fun count spent paid => (take count).mono fun more bytes taken => by omega

/-- Text costs more than its bytes are, since their number stands in front of them. -/
theorem string : Metered input (Cursor.string input)
    fun spent text => (Utf8.encode text).length < spent := by
  refine checked binary fun start bytes spent paid => ?_
  cases spelled : Utf8.decode bytes with
  | error cause => exact malformed
  | ok text =>
    refine pure ?_
    rw [Utf8.encode_of_decode spelled]
    exact paid

/-- A tag is one byte. -/
theorem tag : Metered input (Cursor.tag input) fun spent _ => spent = 1 := by
  refine checked byte fun start id spent paid => ?_
  cases TypeTag.ofId? id with
  | none => exact malformed
  | some tag => exact pure paid

/-! ## Several things -/

/-- What holds of nothing for free, and of one thing more at its price, holds of them all; and there
are as many as were asked for. -/
theorem times_counted {α : Type} {read : Decoder α} {p : Nat → α → Prop} {q : Nat → List α → Prop}
    (metered : Metered input read p) (nothing : q 0 [])
    (more : ∀ spent a later rest, p spent a → q later rest → q (spent + later) (a :: rest)) :
    ∀ count : Nat, Metered input (Decoding.times read count)
      fun spent all => all.length = count ∧ q spent all := by
  intro count
  induction count with
  | zero => exact pure ⟨rfl, nothing⟩
  | succ count ih =>
    exact metered.bind fun first spent one => ih.map fun later rest others =>
      ⟨congrArg (· + 1) others.1, more spent first later rest one others.2⟩

/-- What holds of nothing and is kept by each reading holds of all of them together. -/
theorem times {α : Type} {read : Decoder α} {p : Nat → α → Prop} {q : Nat → List α → Prop}
    (metered : Metered input read p) (nothing : q 0 [])
    (more : ∀ spent a later rest, p spent a → q later rest → q (spent + later) (a :: rest))
    (count : Nat) : Metered input (Decoding.times read count) q :=
  (metered.times_counted nothing more count).mono fun _ _ fact => fact.2

end Metered
end DocumentCodec
