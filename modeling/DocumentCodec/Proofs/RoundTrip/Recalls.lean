import DocumentCodec.Proofs.Emission
import DocumentCodec.Proofs.ReadingBack
import DocumentCodec.Proofs.Recall
/-!
# Reading back what is recalled

A reading of what was written answers with what is recalled of it, and if nothing is recalled, it
fails; but never for want of budget, unless a factory says so.  An exact reading needs that
something is recalled, and then it does answer.

`Recalls` is closed under sequences, as `ReadsBack` is.
-/

namespace DocumentCodec

/-- Standing where the input holds `bytes`, the reading hands out each of them once and answers with
what is recalled; `earlier` and `last` are the targets that the resolver was asked for before and
after the bytes were written. -/
def Recalls {α : Type} (exact : Prop) (said : Failure → Prop) (input : List UInt8)
    (read : Decoder α) (start : Nat) (bytes : List UInt8) (remember : Recalling α)
    (earlier last : List LinkTarget) : Prop :=
  (exact → (remember earlier).isSome = true) →
    ReadsBack exact said input read start bytes fun made => remember earlier = some (made, last)

namespace Recalls

variable {α β : Type} {exact : Prop} {said : Failure → Prop} {input bytes more : List UInt8}
  {start : Nat}
  {earlier mid last : List LinkTarget} {x : Recalling α} {g : α → Recalling β}

/-! ## Sequences -/

/-- **Sequences.**  What the first reading recalls decides what is read next, and what the resolver
is asked by then is what was asked when it was written. -/
theorem bind {read : Decoder α} {f : α → Decoder β}
    (first : Recalls exact said input read start bytes x earlier mid)
    (second : ∀ a, x earlier = some (a, mid) →
      Recalls exact said input (f a) (start + bytes.length) more (g a) mid last) :
    Recalls exact said input (read >>= f) start (bytes ++ more) (x >>= g) earlier last := by
  intro exactly
  have left (whole : exact) : (x earlier).isSome = true := Recalling.isSome_left (exactly whole)
  refine (first left).bind fun a recalled => ?_
  have rest : (x >>= g) earlier = g a mid := Recalling.run_bind recalled
  rw [rest] at exactly ⊢
  exact second a recalled exactly

/-- What is recalled for sure. -/
theorem of_back {read : Decoder α} {a : α}
    (back : ReadsBack exact said input read start bytes (· = a)) :
    Recalls exact said input read start bytes (Pure.pure a) earlier earlier :=
  fun _ => back.mono fun _ same => by subst same; rfl

theorem pure (a : α) :
    Recalls exact said input (Pure.pure a : Decoder α) start [] (Pure.pure a) earlier earlier :=
  of_back (.pure rfl)

/-- What is read may be wrapped up, as long as what is recalled is. -/
theorem map {read : Decoder α} {wrap : α → β}
    (first : Recalls exact said input read start bytes x earlier last) :
    Recalls exact said input (read >>= fun a => Pure.pure (wrap a)) start bytes
      (x >>= fun a => Pure.pure (wrap a)) earlier last := by
  have both : Recalls exact said input _ start (bytes ++ []) _ earlier last :=
    first.bind fun a _ => pure (wrap a)
  rw [List.append_nil] at both
  exact both

/-- A check of an answer that reads nothing more. -/
theorem check {read : Decoder α} {f : α → Decoder β}
    (first : Recalls exact said input read start bytes x earlier mid)
    (second : ∀ a, x earlier = some (a, mid) →
      Recalls exact said input (f a) (start + bytes.length) [] (g a) mid last) :
    Recalls exact said input (read >>= f) start bytes (x >>= g) earlier last := by
  have both := first.bind second
  rw [List.append_nil] at both
  exact both

/-- A reading that looks where it stands first. -/
theorem offset_bind {f : Nat → Decoder α}
    (second : Recalls exact said input (f start) start bytes x earlier last) :
    Recalls exact said input (Cursor.offset >>= f) start bytes x earlier last := second

/-- What is known of the input may be used. -/
theorem of_holds {read : Decoder α}
    (back : Holds input start bytes → Recalls exact said input read start bytes x earlier last) :
    Recalls exact said input read start bytes x earlier last :=
  fun exactly => .of_holds fun holds => back holds exactly

/-- A refusal where nothing is recalled, not for want of budget. -/
theorem refused {read : Decoder α} {e : Failure} (none : x earlier = none)
    (fails : ∀ here, read here = .error e here) (enough : e.isOverlap = false ∨ said e) :
    Recalls exact said input read start bytes x earlier last := by
  intro exactly _ visited _
  rw [fails]
  refine ⟨fun whole => ?_, enough⟩
  have some := exactly whole
  rw [none] at some
  cases some

/-- What a collaborator answers with. -/
theorem orThrow {outcome : Except Failure α}
    (enough : ∀ e, outcome = .error e → e.isOverlap = false ∨ said e) :
    Recalls exact said input (Decoding.orThrow outcome) start [] (Recalling.answer outcome.toOption)
      earlier earlier := by
  cases outcome with
  | ok a => exact pure a
  | error e => exact refused rfl (fun _ => rfl) (enough e rfl)

/-- Either something is recalled and read, or nothing is and reading fails. -/
theorem cases {read : Decoder α} {visited : Nat}
    (recalls : ∀ exact, Recalls exact said input read start bytes x earlier last)
    (holds : Holds input start bytes) (budget : visited + bytes.length ≤ input.length) :
    (∃ made, x earlier = some (made, last) ∧
      read ⟨start, visited⟩ = .ok made ⟨start + bytes.length, visited + bytes.length⟩) ∨
    (x earlier = none ∧ ∃ e there, read ⟨start, visited⟩ = .error e there) := by
  cases recalled : x earlier with
  | some answer =>
    have back := recalls True fun _ => by
      rw [recalled]
      rfl
    obtain ⟨made, run, recalled'⟩ := (back holds visited budget).of_exact
    rw [recalled] at recalled'
    exact Or.inl ⟨made, recalled', run⟩
  | none =>
    refine Or.inr ⟨rfl, ?_⟩
    -- where nothing is recalled the reading cannot go through, as it would have read what is
    -- recalled
    have ends := recalls False False.elim holds visited budget
    cases run : read ⟨start, visited⟩ with
    | ok made there =>
      rw [run] at ends
      have recalled' := ends.2
      rw [recalled] at recalled'
      cases recalled'
    | error e there => exact ⟨e, there, rfl⟩

/-! ## Lengths and text -/

/-- A length comes back if it is a signed 32-bit word, and is refused if it is not. -/
theorem length {n : Nat} (word : n < 2 ^ 63) : Recalls exact said input (Cursor.length input) start
    (Varint.encode (UInt64.ofNat n)) (Recall.length n) earlier earlier := by
  rw [Recall.length]
  split
  · next narrow => exact of_back (.length narrow)
  · next wide =>
    intro exactly
    have inexact : ¬exact := fun whole => by cases exactly whole
    exact .offset_bind ((ReadsBack.wide (Nat.le_of_not_lt wide) word inexact).check
      fun _ none => none.elim)

variable (small : input.length < 2 ^ 63)
include small

/-- Bytes come back, with their number in front.  The input that holds them is short, so their
number is one that a reader accepts. -/
theorem binary (bytes : List UInt8) : Recalls exact said input (Cursor.binary input) start
    (Varint.encode (UInt64.ofNat bytes.length) ++ bytes) (Recall.binary bytes) earlier earlier := by
  refine of_holds fun holds => ?_
  have inside := holds.right.bound
  refine (length (by omega)).bind fun count recalled => of_back ?_
  exact .take (Recall.length_eq_some.mp recalled).2.1.symm

/-- Text comes back: its bytes do, and they spell it. -/
theorem string (text : String) : Recalls exact said input (Cursor.string input) start
    (Varint.encode (UInt64.ofNat (Utf8.encode text).length) ++ Utf8.encode text)
    (Recall.string text) earlier earlier := by
  refine offset_bind ((binary small _).check fun taken recalled => ?_)
  obtain ⟨-, rfl, -⟩ := Recall.binary_eq_some.mp recalled
  rw [Utf8.decode_encode]
  exact pure text

end Recalls

/-! ## Several things -/

namespace Recalls

variable {α β : Type} {exact : Prop} {said : Failure → Prop} {input : List UInt8}

/-- What is written one behind the other comes back one behind the other, and there are no more
things than bytes. -/
theorem times {write : α → Encoder Unit} {read : Decoder β} {remember : α → Recalling β} :
    ∀ (items : List α) {start : Nat} {earlier calls : List LinkTarget} {bytes : List UInt8},
    (∀ item ∈ items, ∀ {start earlier bytes calls},
      write item start earlier = ⟨bytes, calls, .ok ()⟩ → 0 < bytes.length ∧
        Recalls exact said input read start bytes (remember item) earlier (earlier ++ calls)) →
    items.forM write start earlier = ⟨bytes, calls, .ok ()⟩ → items.length ≤ bytes.length ∧
      Recalls exact said input (Decoding.times read items.length) start bytes (items.mapM remember)
        earlier (earlier ++ calls) := by
  intro items
  induction items with
  | nil =>
    intro start earlier calls bytes each run
    cases run
    rw [List.append_nil]
    exact ⟨Nat.le_refl 0, pure []⟩
  | cons item rest ih =>
    intro start earlier calls bytes each run
    rw [Encoder.forM_cons] at run
    obtain ⟨_, bytes₁, calls₁, bytes₂, calls₂, first, later, rfl, rfl⟩ := Encoder.bind_eq_ok.mp run
    obtain ⟨positive, back⟩ := each item List.mem_cons_self first
    obtain ⟨fewer, backs⟩ := ih (fun other there => each other (List.mem_cons_of_mem _ there)) later
    rw [List.length_cons, List.length_append, List.mapM_cons, ← List.append_assoc]
    -- the number of the elements is at most that of their bytes, as each has one
    exact ⟨by omega, back.bind fun _ _ => backs.map⟩

end Recalls
end DocumentCodec
