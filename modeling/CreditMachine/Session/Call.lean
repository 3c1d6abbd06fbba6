import CreditMachine.Machine.Run
import CreditMachine.Session.Settings
import CreditMachine.Storage.Meter
import CreditMachine.Storage.Overlay

/-!
# Calls

A call of a contract is executed on an overlay over the store, behind a meter.
Its changes reach the store, all at once, only if it succeeds and is not
read-only; otherwise they are dropped. An abort of the contract is an outcome of
the call; a failure of the store is not.

* `Call.attempt` executes a call on the overlay;
* `Call.execute` checks the entry, makes the attempt, and commits it or not.
-/

namespace CreditMachine

/-- A call of a contract. -/
structure Call where
  contract : Address
  entry : Entry
  args : List Value
  /-- The budget of the call and all calls nested in it. -/
  credits : UInt64
  /-- Whether storage may only be read. -/
  readOnly : Bool
  /-- Whether the outcome shows the memory of the machine. -/
  dump : Bool

/-- The outcome of a call that succeeded or aborted. -/
structure Outcome where
  /-- None after an abort, and of an entry without a result. -/
  result : Option Value
  creditsUsed : UInt64
  usage : Usage
  fee : UInt64
  /-- The report of an abort. -/
  report : Option Report
  profile : Profile
  /-- The text of the machine at the end, if it was asked for. -/
  dump : Option String
deriving DecidableEq

def Outcome.isSuccess (o : Outcome) : Bool := o.report.isNone

/-- Why a call has no outcome. -/
inductive CallError
  /-- The store failed. -/
  | backend (e : StorageError)
  /-- The program has no such entry. -/
  | invalidEntry (entry : String)
deriving DecidableEq

def CallError.message : CallError → String
  | .backend e => "backend fault: " ++ e.message
  | .invalidEntry entry => "invalid entry point: " ++ entry

/-- Whether the program `p` has the entry. -/
def Entry.isIn (p : Program) : Entry → Bool
  | .method name => (p.method? name).isSome
  | .index i => i.toNat < p.methods.size
  | .offset i _ => i.toNat < p.code.size

/-- A call after its execution, before its changes are committed or dropped. -/
structure Attempt where
  /-- How the run ended. -/
  ending : Except Abort Unit
  machine : Machine
  meter : Meter
  overlay : Overlay

/-- The failure of the store that ended an attempt, if one did. -/
def Attempt.fault? (a : Attempt) : Option StorageError :=
  match a.ending with
  | .error (.storage e) => if e.isFatal then some e else none
  | _ => none

/-- The outcome of an attempt that no failure of the store ended. -/
def Attempt.outcome (a : Attempt) (q : Call) (c : Settings) : Outcome where
  result := a.machine.result
  creditsUsed := a.machine.credits.used
  usage := a.meter.usage
  fee := c.fees.price a.machine.credits.used a.meter.usage
  report :=
    match a.ending with
    | .ok () => none
    | .error e => some (a.machine.report e c.messageLimit)
  profile := a.machine.credits.profile
  dump := if q.dump then some a.machine.dump else none

namespace Call

variable {σ : Type} (b : Backend σ) (p : Program) (registry : Registry) (c : Settings) (q : Call)

/-- Whether the changes of an attempt are committed. -/
def commits (a : Attempt) : Bool :=
  a.ending.isOk && !q.readOnly

/-- A machine for a call, with the program `p`. -/
def machine : Machine := (Machine.new q.contract q.readOnly registry 0).load p

/-- Executes a call of the program `p` on an overlay over the store. -/
def attempt (s : σ) : Attempt × σ :=
  let ((r, m), k, o, s) := (q.machine p registry).call (Meter.backend (Overlay.backend b)) q.entry
    q.args q.credits (.new q.readOnly, .empty, s)
  (⟨r, m, k, o⟩, s)

/-- Commits the changes of an attempt to the store, or drops them. -/
def settle (a : Attempt) (s : σ) : Except CallError Outcome × σ :=
  match a.fault? with
  | some e => (.error (.backend e), s)
  | none =>
    if q.commits a then
      match a.overlay.commit b s with
      | (.ok _, _, s) => (.ok (a.outcome q c), s)
      | (.error e, _, s) => (.error (.backend e), s)
    else (.ok (a.outcome q c), s)

/-- Executes a call of the program `p` on a store. -/
def execute (s : σ) : Except CallError Outcome × σ :=
  if q.entry.isIn p then
    let (a, s) := q.attempt b p registry s
    q.settle b c a s
  else (.error (.invalidEntry q.entry.text), s)

end Call

end CreditMachine
