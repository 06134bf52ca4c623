import DocumentCodec.Dump
/-!
# The record inspector as a program

Reads the file that the arguments name and prints what `Dump.run` answers.
-/

namespace DocumentCodec

/-- What a failure of reading says about the path.  The system's number for a directory in place
of a file is 21, with either sign. -/
def fileError : IO.Error → Dump.FileError
  | .noFileOrDirectory .. => .missing
  | .permissionDenied .. => .denied
  | .invalidArgument .. => .nameTooLong
  | .inappropriateType _ code _ => if code = 21 ∨ code = -21 then .directory else .notDirectory
  | _ => .unreadable

/-- What a path leads to. -/
def readContents (path : String) : IO (Except Dump.FileError (List UInt8)) := do
  try
    let data ← IO.FS.readBinFile path
    return .ok data.data.toList
  catch e =>
    return .error (fileError e)

end DocumentCodec

open DocumentCodec

/-- Inspects the record that the arguments ask for. -/
def main (arguments : List String) : IO UInt32 := do
  let contents ←
    match Dump.path? arguments with
    | none => pure (.ok [])
    | some path => readContents path
  let outcome := Dump.run (fun _ => contents) arguments
  IO.print outcome.output
  IO.eprint outcome.errors
  return UInt32.ofNat outcome.exitCode
