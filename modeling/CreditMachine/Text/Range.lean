/-!
# Ranges of characters

Classes of characters that follow no simple rule are given by ranges of code
points, each from its first to its last.
-/

namespace CreditMachine.Text

/-- `c` is in one of the ranges `l`. -/
def inRanges (l : List (Nat × Nat)) (c : Char) : Bool :=
  l.any fun r => r.1 ≤ c.toNat && c.toNat ≤ r.2

end CreditMachine.Text
