import CreditMachine.Session.Fees
import Mathlib.Algebra.BigOperators.Group.List.Basic
import Mathlib.Algebra.GroupWithZero.Nat

/-!
# Prices

Whatever is counted or priced stops at the greatest word: each time that two usages are merged, and
in a fee at each product and at each sum. It comes to the same as if the exact amount was cut once,
at the end. What has been cut off is not missed later: a sum with more than the greatest word is
more than that, and so is a product, unless it is with nothing (`addSat_clamp`, `mulSat_clamp`).

So usages may be merged in any order and grouping (`Usage.Merging.totals`), and the fee for all of
them together is their exact price, or the greatest word. This does not decrease when an amount or a
price grows (`Fees.price_exact`).
-/

namespace CreditMachine

/-! ### Cutting once -/

theorem clamp_congr {m n : Nat} (h : min ceiling m = min ceiling n) : clamp m = clamp n :=
  UInt64.toNat_inj.1 (by rw [toNat_clamp, toNat_clamp, h])

theorem clamp_toNat (n : UInt64) : clamp n.toNat = n := by
  have hn := n.toNat_lt
  exact UInt64.toNat_inj.1 (toNat_clamp_of_le (by rw [ceiling]; omega))

/-- The sum of amounts that were cut. -/
theorem addSat_clamp (m n : Nat) : addSat (clamp m) (clamp n) = clamp (m + n) := by
  rw [addSat, toNat_clamp, toNat_clamp]
  apply clamp_congr
  omega

/-- The price of an amount that was cut. -/
theorem mulSat_clamp (m : Nat) (n : UInt64) : mulSat (clamp m) n = clamp (m * n.toNat) := by
  rw [mulSat, toNat_clamp]
  apply clamp_congr
  rcases Nat.eq_zero_or_pos n.toNat with hn | hn
  · rw [hn, Nat.mul_zero, Nat.mul_zero]
  · -- What is beyond the greatest word stays there, as the price is one at least.
    have hc := Nat.le_mul_of_pos_right ceiling hn
    have hm := Nat.le_mul_of_pos_right m hn
    rcases Nat.le_total ceiling m with h | h
    · rw [Nat.min_eq_left h]
      omega
    · rw [Nat.min_eq_right h]

/-- The sum of any number of amounts. -/
theorem foldl_addSat (n : Nat) (l : List Nat) :
    (l.map clamp).foldl addSat (clamp n) = clamp (n + l.sum) := by
  induction l generalizing n with
  | nil => rfl
  | cons m l ih =>
    rw [List.map_cons, List.foldl_cons, addSat_clamp, ih, List.sum_cons, Nat.add_assoc]

/-! ### Merging -/

namespace Usage

/-- A way to merge usages in pairs. -/
inductive Merging
  | one (u : Usage)
  | both (s t : Merging)

namespace Merging

/-- The usages that are merged, from the left to the right. -/
def usages : Merging → List Usage
  | one u => [u]
  | both s t => s.usages ++ t.usages

/-- What they are merged to. -/
def result : Merging → Usage
  | one u => u
  | both s t => s.result.merge t.result

end Merging

/-- Each count of `u` is the exact sum of those of `l`, or the greatest word. -/
structure Totals (u : Usage) (l : List Usage) : Prop where
  reads : u.reads.toNat = min ceiling (l.map (·.reads.toNat)).sum
  writes : u.writes.toNat = min ceiling (l.map (·.writes.toNat)).sum
  bytesRead : u.bytesRead.toNat = min ceiling (l.map (·.bytesRead.toNat)).sum
  bytesWritten : u.bytesWritten.toNat = min ceiling (l.map (·.bytesWritten.toNat)).sum

namespace Merging

variable {t : Merging} {l : List Usage}

/-- A count that is added by each merge. -/
theorem count_result {f : Usage → UInt64} (hf : ∀ u v, f (u.merge v) = addSat (f u) (f v))
    (h : t.usages.Perm l) : f t.result = clamp (l.map fun u => (f u).toNat).sum := by
  rw [← (h.map _).sum_eq]
  clear h
  induction t with
  | one u => rw [usages, List.map_singleton, List.sum_singleton, clamp_toNat, result]
  | both s t hs ht =>
    rw [usages, List.map_append, List.sum_append, ← addSat_clamp, ← hs, ← ht, result, hf]

/-- In whatever order reports are merged, each count is the sum, cut once. -/
theorem result_eq (h : t.usages.Perm l) : t.result =
    ⟨clamp (l.map (·.reads.toNat)).sum, clamp (l.map (·.writes.toNat)).sum,
      clamp (l.map (·.bytesRead.toNat)).sum, clamp (l.map (·.bytesWritten.toNat)).sum⟩ := by
  rw [← count_result (f := reads) (fun _ _ => rfl) h,
    ← count_result (f := writes) (fun _ _ => rfl) h,
    ← count_result (f := bytesRead) (fun _ _ => rfl) h,
    ← count_result (f := bytesWritten) (fun _ _ => rfl) h]

/-- The counts of a merged report never exceed the sums, and are the sums where these fit. -/
theorem totals (h : t.usages.Perm l) : t.result.Totals l := by
  rw [result_eq h]
  exact ⟨toNat_clamp _, toNat_clamp _, toNat_clamp _, toNat_clamp _⟩

end Merging

/-- No count of `u` is greater than that of `v`. -/
structure AtMost (u v : Usage) : Prop where
  reads : u.reads ≤ v.reads
  writes : u.writes ≤ v.writes
  bytesRead : u.bytesRead ≤ v.bytesRead
  bytesWritten : u.bytesWritten ≤ v.bytesWritten

end Usage

/-! ### Fees -/

namespace Fees

/-- No price of `f` is greater than that of `g`. -/
structure AtMost (f g : Fees) : Prop where
  credit : f.credit ≤ g.credit
  readByte : f.readByte ≤ g.readByte
  writeByte : f.writeByte ≤ g.writeByte
  read : f.read ≤ g.read
  write : f.write ≤ g.write

/-- The exact price of credits, and of reads and writes with so many bytes, however great. -/
def exact (f : Fees) (credits reads writes bytesRead bytesWritten : Nat) : Nat :=
  credits * f.credit.toNat + bytesRead * f.readByte.toNat + bytesWritten * f.writeByte.toNat +
    reads * f.read.toNat + writes * f.write.toNat

variable {f g : Fees}

/-- The fee for counts that were cut. -/
theorem price_clamp (f : Fees) (c : UInt64) (r w i o : Nat) :
    f.price c ⟨clamp r, clamp w, clamp i, clamp o⟩ = clamp (f.exact c.toNat r w i o) := by
  have hs := foldl_addSat 0 [c.toNat * f.credit.toNat, i * f.readByte.toNat, o * f.writeByte.toNat,
    r * f.read.toNat, w * f.write.toNat]
  rw [price, mulSat, mulSat_clamp, mulSat_clamp, mulSat_clamp, mulSat_clamp]
  refine hs.trans (congrArg clamp ?_)
  simp only [exact, List.sum_cons, List.sum_nil]
  omega

/-- A fee that is cut at every step is the exact fee, cut once. -/
theorem price_eq (f : Fees) (c : UInt64) (u : Usage) : f.price c u = clamp
    (f.exact c.toNat u.reads.toNat u.writes.toNat u.bytesRead.toNat u.bytesWritten.toNat) := by
  rw [← price_clamp, clamp_toNat, clamp_toNat, clamp_toNat, clamp_toNat]

/-- The exact fee grows with the prices and with the amounts. -/
theorem exact_mono (h : f.AtMost g) {c d r r' w w' i i' o o' : Nat} (hc : c ≤ d) (hr : r ≤ r')
    (hw : w ≤ w') (hi : i ≤ i') (ho : o ≤ o') : f.exact c r w i o ≤ g.exact d r' w' i' o' := by
  have hp {m n : Nat} {p q : UInt64} (hm : m ≤ n) (hp : p ≤ q) : m * p.toNat ≤ n * q.toNat :=
    Nat.mul_le_mul hm (UInt64.le_iff_toNat_le.1 hp)
  have := hp hc h.credit
  have := hp hi h.readByte
  have := hp ho h.writeByte
  have := hp hr h.read
  have := hp hw h.write
  rw [exact, exact]
  omega

/-- A fee does not decrease when an amount or a price grows. -/
theorem price_mono (h : f.AtMost g) {c d : UInt64} (hc : c ≤ d) {u v : Usage} (hu : u.AtMost v) :
    f.price c u ≤ g.price d v := by
  have he := exact_mono h (UInt64.le_iff_toNat_le.1 hc) (UInt64.le_iff_toNat_le.1 hu.reads)
    (UInt64.le_iff_toNat_le.1 hu.writes) (UInt64.le_iff_toNat_le.1 hu.bytesRead)
    (UInt64.le_iff_toNat_le.1 hu.bytesWritten)
  rw [UInt64.le_iff_toNat_le, price_eq, price_eq, toNat_clamp, toNat_clamp]
  omega

/-- Amounts are cut once. In whatever order and grouping usages are merged, each count is the exact
    sum, or the greatest word. The fee for a usage is the exact price of the credits, the bytes and
    the accesses, or the greatest word; and so is the fee for usages that were merged, although
    their counts may have been cut. It does not decrease when an amount or a price grows. -/
theorem price_exact :
    (∀ (t : Usage.Merging) (l : List Usage), t.usages.Perm l → t.result.Totals l) ∧
    (∀ (f : Fees) (c : UInt64) (u : Usage), (f.price c u).toNat = min ceiling
      (c.toNat * f.credit.toNat + u.bytesRead.toNat * f.readByte.toNat +
        u.bytesWritten.toNat * f.writeByte.toNat + u.reads.toNat * f.read.toNat +
        u.writes.toNat * f.write.toNat)) ∧
    (∀ (f : Fees) (c : UInt64) (t : Usage.Merging) (l : List Usage), t.usages.Perm l →
      (f.price c t.result).toNat = min ceiling (f.exact c.toNat (l.map (·.reads.toNat)).sum
        (l.map (·.writes.toNat)).sum (l.map (·.bytesRead.toNat)).sum
        (l.map (·.bytesWritten.toNat)).sum)) ∧
    ∀ (f g : Fees) (c d : UInt64) (u v : Usage), f.AtMost g → c ≤ d → u.AtMost v →
      f.price c u ≤ g.price d v := by
  refine ⟨fun t l h => Usage.Merging.totals h, fun f c u => ?_, fun f c t l h => ?_,
    fun f g c d u v h hc hu => price_mono h hc hu⟩
  · rw [price_eq, toNat_clamp, exact]
  · rw [Usage.Merging.result_eq h, price_clamp, toNat_clamp]

/-- Three usages are merged, whose writes and bytes come to more than a word. Bytes that are read
    are for free. -/
theorem price_exact_beyond :
    let n : UInt64 := 0xFFFFFFFFFFFFFFF0
    let u : Usage := ⟨1, n, n, 7⟩
    let v : Usage := ⟨2, 40, n, n⟩
    let w : Usage := ⟨3, 50, 60, 70⟩
    let t : Usage.Merging := .both (.both (.one u) (.one w)) (.one v)
    let f : Fees := ⟨2, 0, 1, 10, 0⟩
    let g : Fees := ⟨2, 1, 1, 10, 100⟩
    (t.usages.Perm [w, v, u] ∧ f.AtMost g ∧ w.AtMost ⟨3, 50, 60, n⟩) ∧
      (t.result.Totals [w, v, u] ∧ t.result.writes.toNat = ceiling) ∧
      (f.price 50 w).toNat = 200 ∧ (f.price 5 t.result).toNat = ceiling ∧
      f.price 50 w ≤ g.price 60 ⟨3, 50, 60, n⟩ := by
  intro n u v w t f g
  obtain ⟨hm, hp, ha, hl⟩ := price_exact
  have hu : t.usages.Perm [w, v, u] := by decide
  have hf : f.AtMost g := ⟨by decide, by decide, by decide, by decide, by decide⟩
  have hw : w.AtMost ⟨3, 50, 60, n⟩ := ⟨by decide, by decide, by decide, by decide⟩
  have ht := hm t _ hu
  exact ⟨⟨hu, hf, hw⟩, ⟨ht, ht.writes.trans (by decide)⟩, (hp f 50 w).trans (by decide),
    (ha f 5 t _ hu).trans (by decide), hl f g 50 60 w _ hf (by decide) hw⟩

end Fees

end CreditMachine
