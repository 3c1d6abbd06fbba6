/-!
# Text in fields

A text in a field of a number of characters, filled up with blanks. A text that
is longer than the field is kept as it is.
-/

namespace CreditMachine.Text

/-- `n` blanks. -/
def blanks (n : Nat) : String :=
  String.ofList (List.replicate n ' ')

/-- The text `s` at the left of a field of `n` characters. -/
def padRight (n : Nat) (s : String) : String :=
  s ++ blanks (n - s.length)

/-- The text `s` at the right of a field of `n` characters. -/
def padLeft (n : Nat) (s : String) : String :=
  blanks (n - s.length) ++ s

end CreditMachine.Text
