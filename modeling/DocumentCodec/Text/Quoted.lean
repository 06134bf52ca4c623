import DocumentCodec.Text.Glyphless
/-!
# Quoted text

A string between double quotes, on one line, so that every character of it can be told: quotes and
backslashes take a backslash, tab, line feed, carriage return and NUL have short names, and every
other character without a glyph of its own is written by its number.
-/

namespace DocumentCodec.Quoted

/-- A digit below sixteen, in lower case. -/
def hexDigit (n : Nat) : Char := if n < 10 then Char.ofNat (48 + n) else Char.ofNat (87 + n)

/-- The hexadecimal digits of `n`, with no leading zero; `room` bounds their number. -/
def hex : (room : Nat) → (n : Nat) → List Char
  | 0, _ => []
  | room + 1, n => if n < 16 then [hexDigit n] else hex room (n / 16) ++ [hexDigit (n % 16)]

/-- How a character stands between quotes. -/
def escape (c : Char) : List Char :=
  match c with
  | '\x00' => ['\\', '0']
  | '\t' => ['\\', 't']
  | '\n' => ['\\', 'n']
  | '\r' => ['\\', 'r']
  | '"' => ['\\', '"']
  | '\\' => ['\\', '\\']
  | c =>
    if Glyphless.isGlyphless c then ['\\', 'u', '\x7b'] ++ hex 6 c.toNat ++ ['\x7d'] else [c]

/-- The text between double quotes. -/
def quote (text : String) : String :=
  String.ofList ('"' :: text.toList.flatMap escape ++ ['"'])

end DocumentCodec.Quoted
