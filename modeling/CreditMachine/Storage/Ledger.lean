import CreditMachine.Storage.Recency
import CreditMachine.Storage.Request

/-!
# The ledger

The storage in memory: for each contract, the values of its cells and which
cells hold each value. It never fails.
-/

namespace CreditMachine

/-- The cells of one contract. -/
structure Account where
  cells : Std.ExtTreeMap Cell Value compare
  recency : Recency

namespace Account

/-- The contract without cells. -/
def empty : Account := ⟨∅, .empty⟩

variable (a : Account)

/-- The cell `x` holds `v`. -/
def put (x : Cell) (v : Value) : Account :=
  ⟨a.cells.insert x v, a.recency.write x a.cells[x]? v⟩

/-- The cell `x` is absent. -/
def remove (x : Cell) : Account :=
  match a.cells[x]? with
  | none => a
  | some v => ⟨a.cells.erase x, a.recency.erase x v⟩

/-- The cells of the slot `s`, in order. -/
def slot (s : Slot) : List Cell :=
  a.cells.keys.filter (Cell.slotRange s).has

/-- All cells of the slot `s` are absent. -/
def removeSlot (s : Slot) : Account :=
  (a.slot s).foldl remove a

end Account

/-- The cells of all contracts. -/
structure Ledger where
  accounts : Std.ExtTreeMap Address Account compare

namespace Ledger

/-- No contract has cells. -/
def empty : Ledger := ⟨∅⟩

variable (l : Ledger)

/-- The cells of the contract `c`. -/
def account (c : Address) : Account :=
  l.accounts[c]?.getD .empty

/-- Changes the cells of the contract `c`. -/
def modify (c : Address) (f : Account → Account) : Ledger :=
  ⟨l.accounts.insert c (f (l.account c))⟩

/-- The value of a cell. -/
def get? (c : Address) (x : Cell) : Option Value :=
  (l.account c).cells[x]?

/-- The cells of the contract `c` and their values, in order. -/
def cells (c : Address) : List (Cell × Value) :=
  (l.account c).cells.toList

/-- The cells of the contract `c` that hold `v`, the one written last first. -/
def holders (c : Address) (v : Value) : List Cell :=
  (l.account c).recency.holders v

/-- The ledger as a backend. -/
def backend : Backend Ledger
  | .read c x, l => (.ok (l.get? c x), l)
  | .write c x v, l => (.ok (), l.modify c (·.put x v))
  | .erase c s, l => (.ok (), l.modify c (·.removeSlot s))
  | .eraseEntry c s k, l => (.ok (), l.modify c (·.remove (.entry s k)))
  | .allocate c s, l =>
    match l.get? c (.root s) with
    | some _ => (.ok false, l)
    | none => (.ok true, l.modify c (·.put (.root s) (.map 0)))
  | .holders c v, l => (.ok (l.holders c v), l)

end Ledger

end CreditMachine
