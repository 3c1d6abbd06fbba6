import CreditMachine.Saturating
import CreditMachine.Storage.Request

/-!
# Meters

A meter counts the requests that a backend has answered, and their bytes. One
that is read-only refuses every request that may change cells; such a request
does not reach the backend and is not counted.
-/

namespace CreditMachine

/-- Counts of storage requests and of the bytes of their values. -/
structure Usage where
  reads : UInt64
  writes : UInt64
  bytesRead : UInt64
  bytesWritten : UInt64
deriving DecidableEq

namespace Usage

def zero : Usage := ⟨0, 0, 0, 0⟩

/-- The sum of two usages. -/
def merge (u v : Usage) : Usage where
  reads := addSat u.reads v.reads
  writes := addSat u.writes v.writes
  bytesRead := addSat u.bytesRead v.bytesRead
  bytesWritten := addSat u.bytesWritten v.bytesWritten

end Usage

/-- What an answered request counts for. -/
def Request.usage : (r : Request) → r.Answer → Usage
  | .read .., a => ⟨1, 0, clamp ((a.map Value.size).getD 0), 0⟩
  | .holders _ v, _ => ⟨1, 0, clamp v.size, 0⟩
  | .write _ _ v, _ => ⟨0, 1, 0, clamp v.size⟩
  | .erase .., _ | .eraseEntry .., _ | .allocate .., _ => ⟨0, 1, 0, 0⟩

/-- A meter. -/
structure Meter where
  readOnly : Bool
  usage : Usage
deriving DecidableEq

namespace Meter

/-- A meter that has counted nothing. -/
def new (readOnly : Bool) : Meter := ⟨readOnly, .zero⟩

variable {σ : Type} (b : Backend σ)

/-- A meter over the backend `b`. -/
def backend : Backend (Meter × σ) := fun r (m, s) =>
  if r.mutates && m.readOnly then (.error (.readOnly r.operation), m, s)
  else
    match b r s with
    | (.ok a, s) => (.ok a, { m with usage := m.usage.merge (r.usage a) }, s)
    | (.error e, s) => (.error e, m, s)

end Meter

end CreditMachine
