import CreditMachine.Text.Blank
import CreditMachine.Text.Field

/-!
# Log lines

Messages have a level, and those below a threshold are dropped. A line may start
with the time and with the level in brackets, and may be coloured by its level.
-/

namespace CreditMachine.Log

/-- How much a message matters. -/
inductive Level
  | debug
  | info
  | warn
  | error
deriving DecidableEq

namespace Level

def all : List Level := [.debug, .info, .warn, .error]

def number : Level → Nat
  | .debug => 0
  | .info => 1
  | .warn => 2
  | .error => 3

def text : Level → String
  | .debug => "DEBUG"
  | .info => "INFO"
  | .warn => "WARN"
  | .error => "ERROR"

/-- The level named by a text, in any case and with white space around it. -/
def ofText? (s : String) : Option Level :=
  let name := String.ofList ((Text.trim s).toList.map Char.toUpper)
  if name = "WARNING" then some .warn else all.find? (·.text == name)

/-- What is said of a text that names no level. -/
def unknown (s : String) : String :=
  "unknown log level '" ++ s ++ "'"

/-- What a terminal is sent to show a level in its style. -/
def style : Level → String
  | .debug => "\x1b[2m\x1b[36m"
  | .info => ""
  | .warn => "\x1b[1m\x1b[33m"
  | .error => "\x1b[1m\x1b[31m"

end Level

/-- A message. -/
structure Entry where
  level : Level
  message : String
deriving DecidableEq

/-- How lines are written. -/
structure Format where
  /-- The least level that is written. -/
  least : Level
  showLevel : Bool
  colour : Bool

/-- What a terminal is sent to go back to its own style. -/
def plain : String := "\x1b[0m"

/-- The text written for a message, at a time if that is shown. -/
def Format.line (f : Format) (time : Option String) (e : Entry) : String :=
  if e.level.number < f.least.number then ""
  else
    let time := match time with
      | some t => t ++ " "
      | none => ""
    let level := if f.showLevel then "[" ++ Text.padRight 5 e.level.text ++ "] " else ""
    let line := time ++ level ++ e.message ++ "\n"
    if f.colour then plain ++ e.level.style ++ line ++ plain else line

end CreditMachine.Log
