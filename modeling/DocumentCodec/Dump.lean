import DocumentCodec.Decoding
import DocumentCodec.Printed
/-!
# The record inspector

A command that decodes one record of a file and prints its fields, embedded records indented below
the field that holds them.  There is no schema at hand, so a record that names its fields by
property ids is reported as an error.

All of it is a function of the arguments and of what a path leads to; reading the file and printing
are the outer layer's.
-/

namespace DocumentCodec.Dump

/-! ## Arguments -/

/-- Why a text is no offset. -/
inductive OffsetError where
  | empty
  | invalidDigit
  | tooLarge
deriving DecidableEq, Repr

/-- The text of the reason. -/
def OffsetError.message : OffsetError → String
  | .empty => "cannot parse integer from empty string"
  | .invalidDigit => "invalid digit found in string"
  | .tooLarge => "number too large to fit in target type"

/-- Reads decimal digits behind those that made `n`; the first character that is no digit, or that
takes the number past 64 bits, decides. -/
def readDigits (n : Nat) : List Char → Except OffsetError Nat
  | [] => .ok n
  | c :: rest =>
    if ¬c.isDigit then .error .invalidDigit
    else
      let n := n * 10 + (c.toNat - '0'.toNat)
      if UInt64.size ≤ n then .error .tooLarge else readDigits n rest

/-- Reads an offset: decimal digits, behind a plus sign or not. -/
def readOffset (text : String) : Except OffsetError Nat :=
  match text.toList with
  | [] => .error .empty
  | ['+'] => .error .invalidDigit
  | '+' :: digits => readDigits 0 digits
  | digits => readDigits 0 digits

/-- Why the arguments make no command. -/
inductive UsageError where
  | offsetMissing
  | offsetInvalid (text : String) (cause : OffsetError)
  | fieldsMissing
  | unknownOption (text : String)
  | severalFiles
deriving DecidableEq, Repr

/-- The text of the reason. -/
def UsageError.message : UsageError → String
  | .offsetMissing => "--offset needs a value"
  | .offsetInvalid text cause => s!"invalid offset '{text}': {cause.message}"
  | .fieldsMissing => "--fields needs a value"
  | .unknownOption text => s!"Unknown option: {text}"
  | .severalFiles => "Multiple input files specified"

/-- What is to be inspected: the record at an offset of a file, all of its fields or some. -/
structure Request where
  offset : Nat
  fields : Option (List String)
  path : String
deriving DecidableEq, Repr

/-- What the arguments ask for. -/
inductive Command where
  | usage
  | version
  | inspect (request : Request)
deriving DecidableEq, Repr

/-- Reads the arguments from left to right.  Asking for help or for the version ends the reading;
of an option given twice the later one counts; without a file, help is what is asked for. -/
def readArguments (offset : Nat) (fields : Option (List String)) (path : Option String) :
    List String → Except UsageError Command
  | [] =>
    match path with
    | none => .ok .usage
    | some path => .ok (.inspect ⟨offset, fields, path⟩)
  | argument :: rest =>
    if argument = "--help" ∨ argument = "-h" then .ok .usage
    else if argument = "--version" ∨ argument = "-v" then .ok .version
    else if argument = "--offset" ∨ argument = "-o" then
      match rest with
      | [] => .error .offsetMissing
      | text :: rest =>
        match readOffset text with
        | .ok offset => readArguments offset fields path rest
        | .error cause => .error (.offsetInvalid text cause)
    else if argument = "--fields" ∨ argument = "-f" then
      match rest with
      | [] => .error .fieldsMissing
      | text :: rest => readArguments offset (some (text.splitOn ",")) path rest
    else if argument.startsWith "-" then .error (.unknownOption argument)
    else
      match path with
      | some _ => .error .severalFiles
      | none => readArguments offset fields (some argument) rest

/-! ## What is printed -/

/-- The help text. -/
def usage : List String :=
  ["recdump - print a binary-encoded record",
   "",
   "USAGE:",
   "    recdump [OPTIONS] <FILE>",
   "",
   "OPTIONS:",
   "    -o, --offset <N>       Byte offset of the record in the file (default 0)",
   "    -f, --fields <A,B>     Decode only the listed fields",
   "    -h, --help             Print help information",
   "    -v, --version          Print version information",
   ""]

/-- The version text. -/
def version : String := "recdump 0.1.0"

/-- The blanks before a line at a level of nesting. -/
def indentation (level : Nat) : String := String.ofList (List.replicate (2 * level) ' ')

mutual

/-- The lines of a record at a level of nesting. -/
def recordLines (level : Nat) : Record → List String
  | ⟨className, _, fields, _⟩ =>
    (indentation level ++ "@class " ++ className.getD "<none>") :: fieldsLines level fields
termination_by structural x => x

/-- The lines of fields. -/
def fieldsLines (level : Nat) : List Field → List String
  | [] => []
  | field :: rest => fieldLines level field ++ fieldsLines level rest
termination_by structural x => x

/-- The lines of a field: its name, the tag it was read under, and its value. -/
def fieldLines (level : Nat) : Field → List String
  | ⟨name, value, pinned⟩ =>
    let tag := (pinned.map (·.name)).getD "NULL"
    valueLines level s!"{indentation level}{name} ({tag})" value
termination_by structural x => x

/-- The lines of a value behind what introduces it: an embedded record takes lines of its own, any
other value ends the line. -/
def valueLines (level : Nat) (introduction : String) : Value → List String
  | .embedded record => (introduction ++ ":") :: recordLines (level + 1) record
  | value => [introduction ++ " = " ++ value.printed]
termination_by structural x => x

end

/-! ## Running -/

/-- Why the contents of a path cannot be had. -/
inductive FileError where
  /-- a name on the way leads to nothing -/
  | missing
  /-- access is not allowed -/
  | denied
  /-- a name on the way, with more to follow, is that of a file -/
  | notDirectory
  /-- a name on the way or the whole path is too long -/
  | nameTooLong
  /-- reading failed in some other way -/
  | unreadable
  /-- the path leads to a directory, which can be opened but whose bytes cannot be mapped -/
  | directory
deriving DecidableEq, Repr

/-- The text of the reason, with the system's number for it. -/
def FileError.reason : FileError → String
  | .missing => "No such file or directory (os error 2)"
  | .denied => "Permission denied (os error 13)"
  | .notDirectory => "Not a directory (os error 20)"
  | .nameTooLong => "File name too long (os error 36)"
  | .unreadable => "Input/output error (os error 5)"
  | .directory => "No such device (os error 19)"

/-- The text of the failure; a directory is the one thing that is opened and then fails. -/
def FileError.message (path : String) (e : FileError) : String :=
  match e with
  | .directory => s!"failed to map input file: {e.reason}"
  | _ => s!"failed to open {path}: {e.reason}"

/-- What a run leaves behind. -/
structure Outcome where
  exitCode : Nat
  output : String
  errors : String
deriving DecidableEq, Repr

/-- A run that printed lines. -/
def printed (lines : List String) : Outcome :=
  ⟨0, String.join (lines.map (· ++ "\n")), ""⟩

/-- A run that failed. -/
def failed (message : String) : Outcome := ⟨1, "", s!"Error: {message}\n"⟩

/-- Decodes the record that is asked for. -/
def decodeAt (request : Request) (contents : List UInt8) : Binder Unit := do
  Cursor.seek contents request.offset
  Record.decodeFrom {} contents request.fields

/-- Decodes and prints the record that is asked for. -/
def inspect (request : Request) (contents : List UInt8) : Outcome :=
  match decodeAt request contents ⟨Cursor.start, Record.new⟩ with
  | .error e _ => failed e.message
  | .ok _ state =>
    printed (recordLines 0 state.target
      ++ [s!"-- {state.cursor.position - request.offset} bytes consumed"])

/-- Runs the command, given what each path leads to. -/
def run (contents : String → Except FileError (List UInt8)) (arguments : List String) : Outcome :=
  match readArguments 0 none none arguments with
  | .error e => failed e.message
  | .ok .usage => printed usage
  | .ok .version => printed [version]
  | .ok (.inspect request) =>
    match contents request.path with
    | .error e => failed (e.message request.path)
    | .ok contents => inspect request contents

/-- The path that a run reads, if it reads one. -/
def path? (arguments : List String) : Option String :=
  match readArguments 0 none none arguments with
  | .ok (.inspect request) => some request.path
  | _ => none

end DocumentCodec.Dump
