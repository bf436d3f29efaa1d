import Holdings.Command.Run
import Holdings.Decimal.Shortest

/-!
# The command line

Runs a command line over the files of the machine. What was asked for goes to the standard output; what went
wrong goes to the standard error, and the exit code says which it was.
-/

namespace Holdings

/-- Access to the files of the machine. -/
def machineAccess : Access IO where
  read path := do
    try
      let text ← IO.FS.readFile path
      return some text
    catch _ => return none
  write path text := do
    try
      IO.FS.writeFile path text
      return true
    catch _ => return false

end Holdings

open Holdings in
/-- Runs the command line. -/
def main (words : List String) : IO UInt32 := do
  let ending : Ending Float ← machineAccess.run words
  IO.print ending.output
  match ending with
  | .failed cause => IO.eprintln ("Error: " ++ cause.message)
  | .noRequest .misuse => IO.eprint usage
  | _ => pure ()
  return ending.code.toUInt32
