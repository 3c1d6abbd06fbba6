/-!
# Saturating words

Amounts that are only ever counted up are 64-bit words that stop at the greatest
one. A sum or product of words is the exact one where that fits.
-/

namespace CreditMachine

/-- The greatest 64-bit word, as a number. -/
def ceiling : Nat := 0xFFFFFFFFFFFFFFFF

/-- The number `n` as a word, or the greatest word. -/
def clamp (n : Nat) : UInt64 :=
  if n ≤ ceiling then UInt64.ofNat n else UInt64.ofNat ceiling

/-- The sum of two words, or the greatest word. -/
def addSat (m n : UInt64) : UInt64 :=
  clamp (m.toNat + n.toNat)

/-- The product of two words, or the greatest word. -/
def mulSat (m n : UInt64) : UInt64 :=
  clamp (m.toNat * n.toNat)

theorem toNat_clamp_of_le {n : Nat} (h : n ≤ ceiling) : (clamp n).toNat = n := by
  rw [clamp, if_pos h]
  exact UInt64.toNat_ofNat_of_lt' (Nat.lt_succ_of_le h)

theorem toNat_clamp_of_lt {n : Nat} (h : ceiling < n) : (clamp n).toNat = ceiling := by
  rw [clamp, if_neg (Nat.not_le.2 h)]
  rfl

theorem toNat_clamp (n : Nat) : (clamp n).toNat = min ceiling n := by
  by_cases h : n ≤ ceiling
  · rw [toNat_clamp_of_le h, Nat.min_eq_right h]
  · rw [toNat_clamp_of_lt (Nat.not_le.1 h), Nat.min_eq_left (Nat.le_of_not_le h)]

theorem toNat_addSat {m n : UInt64} (h : m.toNat + n.toNat ≤ ceiling) :
    (addSat m n).toNat = m.toNat + n.toNat :=
  toNat_clamp_of_le h

theorem le_addSat (m n : UInt64) : m.toNat ≤ (addSat m n).toNat := by
  have hm := m.toNat_lt
  rw [addSat, toNat_clamp, ceiling]
  omega

end CreditMachine
