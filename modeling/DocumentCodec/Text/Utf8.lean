/-!
# UTF-8

Strings as bytes and bytes as strings.  Bytes that are no UTF-8 are refused with the place where
the trouble begins and its extent: `invalid` when the octets read so far can no longer be the
beginning of a character, `incomplete` when the input ends inside one that could still go on.

The scan is a state machine over octets.  A leading octet fixes the ranges in which the octets
after it must lie; overlong spellings, surrogates and everything past U+10FFFF fall out of the
ranges of the *second* octet, so the refusal comes at the first octet that rules the text out.
-/

namespace DocumentCodec

/-- Where and why bytes stop being UTF-8.  `start` counts the valid bytes before the trouble. -/
inductive Utf8Error where
  /-- the `extent` octets at `start` are the longest beginning that could have been valid -/
  | invalid (extent start : Nat)
  /-- the input ends inside the character that begins at `start` -/
  | incomplete (start : Nat)
deriving DecidableEq, Repr

/-- The text of a refusal. -/
def Utf8Error.message : Utf8Error → String
  | .invalid extent start => s!"invalid utf-8 sequence of {extent} bytes from index {start}"
  | .incomplete start => s!"incomplete utf-8 byte sequence from index {start}"

namespace Utf8

/-- The bytes of a string. -/
def encode (s : String) : List UInt8 := s.toUTF8.data.toList

/-- The range of an octet that only continues a character. -/
def continuing : UInt8 × UInt8 := (0x80, 0xBF)

/-- The ranges of the octets that must follow a leading octet; `none` if no character begins
with it. -/
def followers (lead : UInt8) : Option (List (UInt8 × UInt8)) :=
  if lead < 0x80 then some []
  else if lead < 0xC2 then none
  else if lead < 0xE0 then some [continuing]
  else if lead = 0xE0 then some [(0xA0, 0xBF), continuing]
  else if lead = 0xED then some [(0x80, 0x9F), continuing]
  else if lead < 0xF0 then some [continuing, continuing]
  else if lead = 0xF0 then some [(0x90, 0xBF), continuing, continuing]
  else if lead < 0xF4 then some [continuing, continuing, continuing]
  else if lead = 0xF4 then some [(0x80, 0x8F), continuing, continuing]
  else none

/-- Scans for the first refusal.  The character under way began at `start`, `seen` of its octets
have been read, and `due` are the ranges of those still to come.  Asked only of bytes that are
not UTF-8: text that ends between two characters has no refusal to report. -/
def refusal (start seen : Nat) (due : List (UInt8 × UInt8)) : List UInt8 → Utf8Error
  | [] => .incomplete start
  | b :: rest =>
    match due with
    | [] =>
      match followers b with
      | none => .invalid 1 start
      | some [] => refusal (start + 1) 0 [] rest
      | some ranges => refusal start 1 ranges rest
    | (low, high) :: later =>
      if low ≤ b ∧ b ≤ high then
        if later.isEmpty then refusal (start + seen + 1) 0 [] rest
        else refusal start (seen + 1) later rest
      else .invalid seen start

/-- The string that `bytes` spell. -/
def decode (bytes : List UInt8) : Except Utf8Error String :=
  match String.fromUTF8? ⟨bytes.toArray⟩ with
  | some s => .ok s
  | none => .error (refusal 0 0 [] bytes)

end Utf8
end DocumentCodec
