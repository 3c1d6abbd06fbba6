import CreditMachine.Machine.Step

/-!
# Runs

A run executes instructions until the outermost frame returns or the machine
aborts. Every instruction costs at least one credit, so a run, together with all
the runs nested in it, ends within as many instructions as there are credits,
and one more that cannot be paid.
-/

namespace CreditMachine

namespace Exec

variable {σ : Type} (b : Backend σ)

/-- Marks the machine as aborted if `x` aborts. -/
def marked (x : Exec σ Unit) : Exec σ Unit :=
  ExceptT.mk fun m s =>
    match x m s with
    | ((.ok (), m), s) => ((.ok (), m), s)
    | ((.error e, m), s) => ((.error e, { m with status := .aborted }), s)

/-- Executes at most `n` instructions, as long as the machine is running. Each
    may call other contracts, in runs with the instructions that remain. -/
def steps : Nat → Exec σ Unit
  | 0 => pure ()
  | n + 1 => do
    if (← get).status = .running then
      marked (step b (steps n))
      steps n

/-- Runs the machine until it has finished or aborted. -/
def run : Exec σ Unit := do
  let m ← get
  if m.status ≠ .running then throw .notRunning
  steps b (m.credits.remaining.toNat + 1)

end Exec

namespace Machine

variable {σ : Type} (b : Backend σ)

/-- Runs a machine over a storage. -/
def run (m : Machine) (s : σ) : (Except Abort Unit × Machine) × σ :=
  Exec.run b m s

/-- Begins an execution and runs it. -/
def call (m : Machine) (e : Entry) (args : List Value) (budget : UInt64) (s : σ) :
    (Except Abort Unit × Machine) × σ :=
  match m.begin e args budget with
  | (.ok (), m) => m.run b s
  | (.error a, m) => ((.error a, m), s)

end Machine

end CreditMachine
