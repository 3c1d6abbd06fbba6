import CreditMachine.Value
import Std.Data.ExtTreeMap

/-!
# The cells that hold a value

For each value that cells of a contract hold, under its digest, the list of
these cells, the one written last first. No list is empty: a value that no cell
holds any more leaves nothing behind.
-/

namespace CreditMachine

/-- The cells by what they hold, the one written last first. -/
structure Recency where
  lists : Std.ExtTreeMap Word (List Cell) compare

namespace Recency

/-- No cell holds anything. -/
def empty : Recency := ⟨∅⟩

variable (i : Recency)

/-- The cells whose values have the digest `d`, if there are any. -/
def list? (d : Word) : Option (List Cell) := i.lists[d]?

/-- The cells that hold `v`, the one written last first. -/
def holders (v : Value) : List Cell :=
  (i.list? v.digest).getD []

/-- The number of values that are held. -/
def size : Nat := i.lists.size

def isEmpty : Bool := i.lists.isEmpty

/-- The cell `x`, which held `v`, holds nothing. -/
def erase (x : Cell) (v : Value) : Recency where
  lists := i.lists.alter v.digest fun
    | none => none
    | some l =>
      match l.filter (· ≠ x) with
      | [] => none
      | l => some l

/-- The cell `x` has been written with `v`, and held `old` before. -/
def write (x : Cell) (old : Option Value) (v : Value) : Recency where
  lists :=
    let i := match old with
      | none => i
      | some w => i.erase x w
    i.lists.alter v.digest fun l => some (x :: l.getD [])

end Recency

end CreditMachine
