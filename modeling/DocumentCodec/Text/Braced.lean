import DocumentCodec.Text.Quoted
/-!
# Values written out in one line

The punctuation of a value that is shown whole: a record is its name with `field: value` pairs in
braces, a list stands in brackets, a map in braces, a variant is its name with what it holds in
parentheses.
-/

namespace DocumentCodec.Braced

/-- Writes a record: its name, then its fields in braces with a blank inside them. -/
def record (name : String) (fields : List (String × String)) : String :=
  name ++ " \x7b " ++ ", ".intercalate (fields.map fun f => f.1 ++ ": " ++ f.2) ++ " \x7d"

/-- Writes a list in brackets. -/
def list (items : List String) : String := "[" ++ ", ".intercalate items ++ "]"

/-- Writes a map in braces with no blank inside them. -/
def map (entries : List (String × String)) : String :=
  "\x7b" ++ ", ".intercalate (entries.map fun e => e.1 ++ ": " ++ e.2) ++ "\x7d"

/-- Writes a variant with what it holds in parentheses. -/
def variant (name content : String) : String := name ++ "(" ++ content ++ ")"

/-- Writes what may be absent as one of the variants `Some` and `None`. -/
def optional (content : Option String) : String :=
  match content with
  | some text => variant "Some" text
  | none => "None"

end DocumentCodec.Braced
