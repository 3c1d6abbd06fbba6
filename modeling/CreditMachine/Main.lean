import CreditMachine.Runner
import Std.Time

/-!
# The program

Reads the program file, and writes what the command line leads to.
-/

namespace CreditMachine.Runner

/-- The time now, in UTC, to the millisecond. -/
def timeText : IO String := do
  let now ← Std.Time.Timestamp.now
  return (Std.Time.DateTime.ofTimestamp now Std.Time.TimeZone.ZoneRules.UTC).format
    "uuuu-MM-dd HH:mm:ss.SSS"

/-- What the file at a path holds, or why it cannot be read. -/
def readProgram (path : String) : IO (Except String Bytes) := do
  try return .ok (← IO.FS.readBinFile path).data.toList
  catch
    | .noFileOrDirectory _ code _ =>
      return .error ("No such file or directory (os error " ++ code.toNat.repr ++ ")")
    | e => return .error e.toString

/-- Does what a command line asks for, and tells the exit code. -/
def serve (args : List String) : IO UInt32 := do
  let level ← IO.getEnv Settings.levelVariable
  let file ← match Options.parse args with
    | .ok o => readProgram o.path
    | .error _ => pure (.error "")
  let t := run args (fun s => if s = Settings.levelVariable then level else none) file
  IO.eprint (t.errors (← timeText))
  IO.print t.output
  return t.exit

end CreditMachine.Runner

def main (args : List String) : IO UInt32 :=
  CreditMachine.Runner.serve args
