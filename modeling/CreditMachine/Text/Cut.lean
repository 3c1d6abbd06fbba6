/-!
# Cutting text to a size

Text is measured in bytes of UTF-8 and cut between characters: `cut n s` is the
longest text at the front of `s` that has at most `n` bytes.

* `size_cutChars_le`: the cut fits;
* `cutChars_prefix`: it stands at the front;
* `cutChars_of_size_le`: what fits is not cut.
-/

namespace CreditMachine.Text

/-- The number of bytes of the characters `cs`. -/
def size : List Char → Nat
  | [] => 0
  | c :: cs => c.utf8Size + size cs

/-- The longest text at the front of the characters that has at most `n` bytes. -/
def cutChars : Nat → List Char → List Char
  | _, [] => []
  | n, c :: cs => if c.utf8Size ≤ n then c :: cutChars (n - c.utf8Size) cs else []

/-- The longest text at the front of `s` that has at most `n` bytes. -/
def cut (n : Nat) (s : String) : String :=
  String.ofList (cutChars n s.toList)

theorem size_cutChars_le (n : Nat) (cs : List Char) : size (cutChars n cs) ≤ n := by
  induction cs generalizing n with
  | nil => simp [cutChars, size]
  | cons c cs ih =>
    have := ih (n - c.utf8Size)
    by_cases h : c.utf8Size ≤ n
    · simp only [cutChars, h, if_true, size] at this ⊢
      omega
    · simp [cutChars, h, size]

theorem cutChars_prefix (n : Nat) (cs : List Char) : cutChars n cs <+: cs := by
  induction cs generalizing n with
  | nil => simp [cutChars]
  | cons c cs ih =>
    by_cases h : c.utf8Size ≤ n
    · simpa [cutChars, h] using ih _
    · simp [cutChars, h]

/-- What fits is not cut. -/
theorem cutChars_of_size_le {n : Nat} {cs : List Char} (h : size cs ≤ n) : cutChars n cs = cs := by
  induction cs generalizing n with
  | nil => rfl
  | cons c cs ih =>
    rw [size] at h
    rw [cutChars, if_pos (by omega), ih (by omega)]

end CreditMachine.Text
