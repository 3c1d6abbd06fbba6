import CreditMachine.Saturating

/-!
# Decimal numbers

The text of a 64-bit word in decimal. It is written without a sign and without
zeros before other digits. It is read with them as well: a plus sign may come
first, and zeros after it, but the number has to fit into a word.
-/

namespace CreditMachine.Text

/-- The word `n` in decimal. -/
def decimal (n : UInt64) : String := n.toNat.repr

/-- The number whose decimal digits are `cs`, after the digits of `n`. -/
def ofDigits? : Nat → List Char → Option Nat
  | n, [] => some n
  | n, c :: cs => if c.isDigit then ofDigits? (10 * n + (c.toNat - 48)) cs else none

/-- The word whose decimal text is `s`. -/
def word64? (s : String) : Option UInt64 :=
  let cs := match s.toList with
    | '+' :: cs => cs
    | cs => cs
  match cs, ofDigits? 0 cs with
  | _ :: _, some n => if n ≤ ceiling then some (UInt64.ofNat n) else none
  | _, _ => none

end CreditMachine.Text
