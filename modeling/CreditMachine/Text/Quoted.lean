import CreditMachine.Text.Combining
import CreditMachine.Text.Hex
import CreditMachine.Text.Invisible
import CreditMachine.Text.Unassigned

/-!
# Quoted text

Text between double quotes, with every character visible. Quotes and
backslashes are escaped by a backslash, the common controls by a letter, and
all that leaves no mark of its own, would combine with the character before it,
or is no character, by its code point. A single quote stands for itself.
-/

namespace CreditMachine.Text

/-- The escape of a character by its code point. -/
def codePoint (c : Char) : List Char :=
  ['\\', 'u', '\x7b'] ++ Nat.toDigits 16 c.toNat ++ ['\x7d']

/-- The text of the character `c` between quotes. -/
def escape (c : Char) : List Char :=
  match c with
  | '\x00' => ['\\', '0']
  | '\t' => ['\\', 't']
  | '\n' => ['\\', 'n']
  | '\r' => ['\\', 'r']
  | '"' => ['\\', '"']
  | '\\' => ['\\', '\\']
  | c => if isCombining c || isInvisible c || isUnassigned c then codePoint c else [c]

/-- The text `s` between double quotes. -/
def quote (s : String) : String :=
  String.ofList ('"' :: s.toList.flatMap escape ++ ['"'])

end CreditMachine.Text
