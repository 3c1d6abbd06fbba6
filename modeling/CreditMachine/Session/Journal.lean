import CreditMachine.Session.Call

/-!
# What is logged of a call

The messages that the attempt of a call gives rise to, and those about what
became of it.
-/

namespace CreditMachine

namespace Attempt

variable (a : Attempt) (q : Call) (c : Settings)

/-- The messages about the execution. -/
def journal : List Log.Entry :=
  let name := q.contract.text
  match a.ending with
  | .ok () =>
    [⟨.debug, name ++ " finished using " ++ Text.decimal a.machine.credits.used ++ " credits"⟩]
  | .error e =>
    let r := a.machine.report e c.messageLimit
    let last : Log.Entry :=
      match a.fault? with
      | some f => ⟨.error, name ++ " hit a backend fault: " ++ f.message⟩
      | none => ⟨.warn, name ++ " aborted with code " ++ r.code.repr ++ " at offset " ++
          r.offset.repr ++ ": " ++ r.message⟩
    -- An execution that never began has no instruction that aborted.
    if a.machine.status = .aborted then
      [⟨.debug, name ++ " aborted at " ++ a.machine.offset.repr ++ ": " ++ e.message⟩, last]
    else [last]

/-- The messages about the changes that are committed. -/
def committed : List Log.Entry :=
  [⟨.info, "committed " ++ a.overlay.pending.repr ++ " cell mutations and " ++
      a.overlay.wiped.size.repr ++ " slot wipes"⟩]

/-- The messages about the changes that are dropped. -/
def dropped : List Log.Entry :=
  if a.overlay.isDirty then
    [⟨.debug, "discarding " ++ a.overlay.pending.repr ++ " pending cell mutations"⟩]
  else []

/-- The messages about the end of a call that succeeded. -/
def completed : List Log.Entry :=
  [⟨.info, q.contract.text ++ " completed using " ++ Text.decimal a.machine.credits.used ++
      " of " ++ Text.decimal q.credits ++ " credits"⟩]

/-- The messages about what became of the attempt. -/
def settlement (r : Except CallError Outcome) : List Log.Entry :=
  match r with
  | .error _ => []
  | .ok o =>
    (if q.commits a then a.committed else a.dropped) ++ if o.isSuccess then a.completed q else []

end Attempt

variable {σ : Type} (b : Backend σ) (p : Program) (registry : Registry) (c : Settings) (q : Call)

/-- Executes a call of the program `p` on a store, and tells what is logged of it. -/
def Call.executeLogged (s : σ) : (Except CallError Outcome × List Log.Entry) × σ :=
  if q.entry.isIn p then
    let (a, s) := q.attempt b p registry s
    let (r, s) := q.settle b c a s
    ((r, a.journal q c ++ a.settlement q r), s)
  else ((.error (.invalidEntry q.entry.text), []), s)

/-- Logging changes nothing. -/
theorem Call.execute_eq (s : σ) :
    q.execute b p registry c s =
      ((q.executeLogged b p registry c s).1.1, (q.executeLogged b p registry c s).2) := by
  unfold execute executeLogged
  split <;> rfl

end CreditMachine
