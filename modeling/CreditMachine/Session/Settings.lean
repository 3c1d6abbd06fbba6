import CreditMachine.Log
import CreditMachine.Session.Fees

/-!
# Settings

What may differ between two installations: how errors are reported, what is
logged, and what is charged. The log level is taken from the environment; what
names no level there is ignored with a warning.
-/

namespace CreditMachine

/-- The settings of an installation. -/
structure Settings where
  /-- The greatest number of bytes of the text of a report. -/
  messageLimit : Nat
  logLevel : Log.Level
  fees : Fees
deriving DecidableEq

namespace Settings

def usual : Settings := ⟨256, .info, .usual⟩

/-- The variable of the environment that sets the log level. -/
def levelVariable : String := "ENGINE_LOG_LEVEL"

/-- The settings in an environment, and what is logged about it. -/
def ofEnvironment (lookup : String → Option String) : Settings × List Log.Entry :=
  match lookup levelVariable with
  | none => (usual, [])
  | some s =>
    match Log.Level.ofText? s with
    | some l => ({ usual with logLevel := l }, [])
    | none => (usual, [⟨.warn, "ignoring invalid " ++ levelVariable ++ "=" ++ s⟩])

end Settings

end CreditMachine
