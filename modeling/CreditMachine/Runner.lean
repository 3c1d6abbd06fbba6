import CreditMachine.Program.Image
import CreditMachine.Session.Journal
import CreditMachine.Storage.Ledger
import CreditMachine.Text.Decimal

/-!
# The command line

A program file is executed from the command line: one method is called, on an
empty ledger, with numbers as arguments. What is printed and logged, and with
what exit code it ends, is a *transcript*, a value: reading the file and writing
the transcript is left to `main`.
-/

namespace CreditMachine.Runner

open Text (decimal padRight)

/-- The name of the command. -/
def command : String := "contract_engine"

/-- The budget of a call that names none. -/
def defaultCredits : UInt64 := 1000000

/-- What a command line asks for. -/
structure Options where
  path : String
  entry : String
  args : List UInt64
  credits : UInt64
  readOnly : Bool
  dump : Bool
deriving DecidableEq

/-- Why a command line is not executed. -/
inductive Refusal
  /-- It asks for help. -/
  | help
  /-- It names no file. -/
  | noFile
  /-- An option has no argument. -/
  | missingArgument (option : String)
  | invalidInteger (s : String)
  | invalidCredits (s : String)
  | unexpected (s : String)
deriving DecidableEq

def usage : String :=
  "Usage: " ++ command ++ " <binary-file> [OPTIONS]\n\n" ++
  "Options:\n" ++
  "  --entry <method>  Method to call (default: main)\n" ++
  "  --arg <n>         Integer argument, repeatable\n" ++
  "  --credits <n>     Credit budget (default: " ++ decimal defaultCredits ++ ")\n" ++
  "  --read-only       Reject every storage mutation\n" ++
  "  --dump            Print interpreter memory after the call\n"

namespace Refusal

def message : Refusal → String
  | .help | .noFile => usage
  | .missingArgument option => option ++ " requires an argument\n"
  | .invalidInteger s => "Invalid integer argument: " ++ s ++ "\n"
  | .invalidCredits s => "Invalid credit budget: " ++ s ++ "\n"
  | .unexpected s => "Unexpected argument: " ++ s ++ "\n\n" ++ usage

def exit : Refusal → UInt32
  | .help => 0
  | _ => 1

end Refusal

namespace Options

/-- What the arguments after the file ask for, in turn. -/
def extend (o : Options) : List String → Except Refusal Options
  | [] => .ok o
  | "--entry" :: s :: l => extend { o with entry := s } l
  | "--arg" :: s :: l =>
    match Text.word64? s with
    | some n => extend { o with args := o.args ++ [n] } l
    | none => .error (.invalidInteger s)
  | "--credits" :: s :: l =>
    match Text.word64? s with
    | some n => extend { o with credits := n } l
    | none => .error (.invalidCredits s)
  | "--read-only" :: l => extend { o with readOnly := true } l
  | "--dump" :: l => extend { o with dump := true } l
  | s :: _ =>
    if s ∈ ["--entry", "--arg", "--credits"] then .error (.missingArgument s)
    else .error (.unexpected s)

/-- What a command line asks for. -/
def parse : List String → Except Refusal Options
  | [] => .error .noFile
  | "--help" :: _ | "-h" :: _ => .error .help
  | path :: l => extend ⟨path, "main", [], defaultCredits, false, false⟩ l

/-- The call that a command line asks for. -/
def call (o : Options) : Call where
  contract := .derive (utf8 o.path)
  entry := .method o.entry
  args := o.args.map .ofWord64
  credits := o.credits
  readOnly := o.readOnly
  dump := o.dump

end Options

/-- A part of what is written to the error output. -/
inductive Notice
  | text (s : String)
  | log (e : Log.Entry)
deriving DecidableEq

/-- What is written for a notice, at a time. -/
def Notice.line (f : Log.Format) (time : String) : Notice → String
  | .text s => s
  | .log e => f.line (some time) e

/-- What a command line leads to. -/
structure Transcript where
  exit : UInt32
  output : String
  notices : List Notice
  /-- The least level of what is logged. -/
  least : Log.Level
deriving DecidableEq

/-- What is written to the error output at a time. -/
def Transcript.errors (t : Transcript) (time : String) : String :=
  String.join (t.notices.map (Notice.line ⟨t.least, true, false⟩ time))

/-- The lines about an outcome. -/
def summary (o : Options) (r : Outcome) : String :=
  let status := match r.report with
    | none => "success"
    | some e => "aborted (code " ++ e.code.repr ++ " at offset " ++ e.offset.repr ++ ", line " ++
        e.line.toNat.repr ++ "): " ++ e.message
  let result := match r.result with
    | some v => v.text
    | none => "none"
  "contract:     " ++ o.call.contract.text ++ "\n" ++
    "status:       " ++ status ++ "\n" ++
    "return:       " ++ result ++ "\n" ++
    "credits used: " ++ decimal r.creditsUsed ++ " / " ++ decimal o.credits ++ "\n" ++
    String.join (Category.all.map fun c =>
      "  " ++ padRight 14 c.text ++ " " ++ decimal (r.profile.get c) ++ "\n") ++
    "storage:      " ++ decimal r.usage.reads ++ " reads (" ++ decimal r.usage.bytesRead ++
    " bytes), " ++ decimal r.usage.writes ++ " writes (" ++ decimal r.usage.bytesWritten ++
    " bytes)\n" ++
    "fee:          " ++ decimal r.fee ++ "\n"

/-- The lines about the cells of a contract. -/
def cellLines (l : List (Cell × Value)) : String :=
  "\ncommitted cells (" ++ l.length.repr ++ "):\n" ++
    String.join (l.map fun (x, v) => "  " ++ x.text ++ " = " ++ v.text ++ "\n")

/-- Executes the program `p` as the command line asks. -/
def execute (o : Options) (c : Settings) (p : Program) : Transcript :=
  let ((r, logged), ledger) :=
    o.call.executeLogged Ledger.backend p (fun _ => none) c Ledger.empty
  match r with
  | .error e =>
    let failed : Log.Entry := ⟨.error, e.message⟩
    ⟨1, "", (logged ++ [failed]).map .log, c.logLevel⟩
  | .ok r =>
    let dump := match r.dump with
      | some s => "\n" ++ s ++ "\n"
      | none => ""
    let cells :=
      if r.isSuccess && !o.readOnly then cellLines (ledger.cells o.call.contract) else ""
    ⟨if r.isSuccess then 0 else 2, summary o r ++ dump ++ cells, logged.map .log, c.logLevel⟩

/-- What a command line leads to in an environment, where `file` is what the
    program file holds, or why it cannot be read. -/
def run (args : List String) (lookup : String → Option String) (file : Except String Bytes) :
    Transcript :=
  match Options.parse args with
  | .error r => ⟨r.exit, "", [.text r.message], .info⟩
  | .ok o =>
    let (c, logged) := Settings.ofEnvironment lookup
    match (file.mapError LoadError.file).bind Program.ofImage with
    | .error e =>
      let failed : Log.Entry := ⟨.error, "Failed to load " ++ o.path ++ ": " ++ e.message⟩
      ⟨1, "", (logged ++ [failed]).map .log, c.logLevel⟩
    | .ok p =>
      let t := execute o c p
      { t with notices := logged.map .log ++ t.notices }

end CreditMachine.Runner
