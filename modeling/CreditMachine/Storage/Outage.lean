import CreditMachine.Storage.Request

/-!
# Outages

A backend that breaks down: it answers a number of requests that read and a
number of requests that change cells, and fails all that come later, without
passing them on.
-/

namespace CreditMachine

/-- How many requests still reach the backend, without limit if none is given,
    and the error of the others. -/
structure Outage where
  reads : Option Nat
  writes : Option Nat
  error : StorageError
deriving DecidableEq

namespace Outage

/-- The limit after one more request, if there may be one. -/
def spend : Option Nat → Option (Option Nat)
  | none => some none
  | some 0 => none
  | some (n + 1) => some (some n)

/-- The outage after one more request, if it reaches the backend. -/
def pass? (g : Outage) (r : Request) : Option Outage :=
  if r.mutates then (spend g.writes).map fun n => { g with writes := n }
  else (spend g.reads).map fun n => { g with reads := n }

variable {σ : Type} (b : Backend σ)

/-- An outage over the backend `b`. -/
def backend : Backend (Outage × σ) := fun r (g, s) =>
  match g.pass? r with
  | none => (.error g.error, g, s)
  | some g =>
    let (a, s) := b r s
    (a, g, s)

end Outage

end CreditMachine
