import DocumentCodec.Context
import DocumentCodec.Number.BigEndian
/-!
# Encoders

An encoder writes bytes forward.  It knows the offset at which its first byte will stand, because
slots hold absolute offsets, and the targets that the resolver was asked for before, because a
resolver may keep state.

What an encoder emits survives its own failure: the bytes written so far stay in the buffer, and
the resolver's calls have been made.  So a failing encoder answers with bytes and calls too, and
the sequence of two encoders is cut off after the first one's when that one fails.
-/

namespace DocumentCodec

/-- What came out of an encoder: the bytes, the resolver's calls, and its result. -/
structure Emission (α : Type) where
  bytes : List UInt8
  calls : List LinkTarget
  result : Except CodecError α

/-- A step of encoding, given where its first byte will stand and which targets the resolver was
asked for before. -/
def Encoder (α : Type) := (start : Nat) → (earlier : List LinkTarget) → Emission α

namespace Encoder

variable {α β : Type}

/-- Emits nothing and answers with `a`. -/
def pure (a : α) : Encoder α := fun _ _ => ⟨[], [], .ok a⟩

/-- Runs `x` and, unless it fails, `f` behind what it emitted. -/
def bind (x : Encoder α) (f : α → Encoder β) : Encoder β := fun start earlier =>
  let first := x start earlier
  match first.result with
  | .error e => ⟨first.bytes, first.calls, .error e⟩
  | .ok a =>
    let next := f a (start + first.bytes.length) (earlier ++ first.calls)
    ⟨first.bytes ++ next.bytes, first.calls ++ next.calls, next.result⟩

instance : Monad Encoder where
  pure := Encoder.pure
  bind := Encoder.bind

/-- Emits `bytes`. -/
def emit (bytes : List UInt8) : Encoder Unit := fun _ _ => ⟨bytes, [], .ok ()⟩

/-- Fails without emitting anything. -/
def fail (e : CodecError) : Encoder α := fun _ _ => ⟨[], [], .error e⟩

/-- The offset at which the next byte will stand. -/
def position : Encoder Nat := fun start _ => ⟨[], [], .ok start⟩

/-! ## The laws -/

@[ext] theorem ext {x y : Encoder α} (h : ∀ start earlier, x start earlier = y start earlier) :
    x = y :=
  funext fun start => funext fun earlier => h start earlier

theorem pure_bind (a : α) (f : α → Encoder β) : (pure a).bind f = f a := by
  ext start earlier
  simp [bind, pure]

/-- An encoder with nothing behind it is that encoder. -/
theorem bind_pure (x : Encoder α) : x.bind pure = x := by
  ext start earlier
  simp only [bind, pure]
  generalize x start earlier = first
  obtain ⟨bytes, calls, result⟩ := first
  cases result <;> simp

/-- Where the cuts are made does not matter: offsets and calls add up. -/
theorem bind_assoc {γ : Type} (x : Encoder α) (f : α → Encoder β) (g : β → Encoder γ) :
    (x.bind f).bind g = x.bind fun a => (f a).bind g := by
  ext start earlier
  simp only [bind]
  generalize x start earlier = first
  obtain ⟨bytes, calls, result⟩ := first
  cases result with
  | error e => rfl
  | ok a =>
    simp only
    generalize f a (start + bytes.length) (earlier ++ calls) = second
    obtain ⟨bytes', calls', result'⟩ := second
    cases result' with
    | error e => rfl
    | ok b => simp [Nat.add_assoc]

instance : LawfulMonad Encoder := LawfulMonad.mk' Encoder bind_pure pure_bind bind_assoc

/-! ## Numbers and text -/

/-- Emits a varint. -/
def varint (n : Nat) : Encoder Unit := emit (Varint.encode (UInt64.ofNat n))

/-- Emits the varint of a signed word. -/
def signedVarint (v : Int64) : Encoder Unit := emit (Varint.encodeSigned v)

/-- Emits one byte. -/
def byte (b : UInt8) : Encoder Unit := emit [b]

/-- Emits a length and that many bytes. -/
def binary (bytes : List UInt8) : Encoder Unit :=
  emit (Varint.encode (UInt64.ofNat bytes.length) ++ bytes)

/-- Emits text behind its length in bytes. -/
def string (text : String) : Encoder Unit := binary (Utf8.encode text)

end Encoder
end DocumentCodec
