import VectorMotion.CommandLine
import VectorMotion.Curve.ArcLength
import VectorMotion.Scalar.Floating

/-!
# The program

Reads the document that the command line names, and prints and writes what the command gives.
-/

namespace VectorMotion

open CommandLine

/-- Writes files into a directory, which is made if there is none. -/
def writeFiles (directory : String) (files : List (String × String)) : IO Unit := do
  IO.FS.createDirAll directory
  for (name, text) in files do
    IO.FS.writeFile (directory ++ "/" ++ name) text

/-- Carries out an invocation. -/
def perform (invocation : Invocation Float32) : IO Outcome := do
  let setting? ← IO.getEnv modeVariable
  let text ← IO.FS.readFile invocation.command.file
  let outcome := invocation.perform Float setting? text
  IO.print outcome.printed
  match invocation.command with
  | .render _ directory _ _ =>
    unless outcome.files.isEmpty do
      writeFiles directory outcome.files
  | .inspect .. => pure ()
  return outcome

end VectorMotion

open VectorMotion in
/-- The program: status two for a command line that makes no sense, and one for a command that
fails. -/
def main (arguments : List String) : IO UInt32 := do
  match CommandLine.parse? (S := Float32) arguments with
  | none =>
    IO.eprintln "usage: inspect FILE [--frame F] | render FILE --out DIR [--from N] [--to N]"
    return 2
  | some invocation =>
    try
      return (← perform invocation).status.toUInt32
    catch error =>
      IO.eprintln (toString error)
      return 1
