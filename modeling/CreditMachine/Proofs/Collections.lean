import CreditMachine.Proofs.Outcomes

/-!
# Lists and maps

What containers stand for: an array for the list of its elements, a map for a finite map
(`Collection`). Every container that is intact stands for a collection (`exists_at`).

What may be asked of collections (`Collection.answer`) and done to them (`Collection.update`) is
told here in terms of lists and maps alone. When the cells of a slot change as they do for an
update, they stand for the collection after it (`Collection.at_set` and its like).
-/

namespace CreditMachine

/-- A list, or a finite map. -/
inductive Collection
  | list (l : List Value)
  | map (f : Std.ExtTreeMap Key Value compare)

/-- What may be asked of a collection. -/
inductive Query
  /-- The entry with a key. -/
  | load (k : Key)
  /-- Whether there is an entry with a key. -/
  | present (k : Key)
  /-- The number of entries. -/
  | size

/-- What may be done to a collection. -/
inductive Update
  | store (k : Key) (v : Value)
  | append (v : Value)
  | delete (k : Key)
  | erase

namespace Collection

def size : Collection → Nat
  | list l => l.length
  | map f => f.size

/-- The entry with a key. -/
def get? : Collection → Key → Option Value
  | list l, k => l[k.toNat]?
  | map f, k => f[k]?

/-- The root of the container. -/
def root : Collection → Value
  | list l => .array (UInt64.ofNat l.length)
  | map f => .map (UInt64.ofNat f.size)

/-- The answer to a query. There are no elements beyond the end of a list. -/
def answer : Collection → Query → Except Abort Value
  | list l, .load k =>
    match l[k.toNat]? with
    | some v => .ok v
    | none => .error (.indexOutOfBounds k (UInt64.ofNat l.length))
  | map f, .load k => .ok (f[k]?.getD .nil)
  | c, .present k => .ok (.ofBool (c.get? k).isSome)
  | c, .size => .ok (.ofWord64 (UInt64.ofNat c.size))

/-- The collection after an update, if any is left. Elements are added and removed at the end of
    a list. -/
def update : Collection → Update → Except Abort (Option Collection)
  | list l, .store k v =>
    if k.toNat < l.length then .ok (some (list (l.set k.toNat v)))
    else if k.toNat = l.length then .ok (some (list (l ++ [v])))
    else .error (.indexOutOfBounds k (UInt64.ofNat l.length))
  | list l, .append v => .ok (some (list (l ++ [v])))
  | list l, .delete k =>
    if 0 < l.length ∧ k.toNat = l.length - 1 then .ok (some (list l.dropLast))
    else .error (.indexOutOfBounds k (UInt64.ofNat l.length))
  | map f, .store k v => .ok (some (map (f.insert k v)))
  | map _, .append _ => .error (.typeMismatch Opcode.append.mnemonic "Array" "Map")
  | map f, .delete k => .ok (some (map (f.erase k)))
  | _, .erase => .ok none

/-- Whatever a collection is, nothing of it is left when it has been erased. -/
theorem update_erase (c : Collection) : c.update .erase = .ok none := by
  cases c <;> rfl

/-- The cells of the slot `t`, among those that hold `g`, are a container for the collection. -/
structure At (c : Collection) (g : Cell → Option Value) (t : Slot) : Prop where
  root : g (.root t) = some c.root
  size : c.size ≤ ceiling
  entries : ∀ k, g (.entry t k) = c.get? k

end Collection

/-! ### Cells of one slot -/

namespace Register

variable {h : Register} {c : Address} {t : Slot} {k j : Key} {v : Value}

theorem entry_put : (h.put ⟨c, .entry t k⟩ v).contents c (.entry t j) =
    if j = k then some v else h.contents c (.entry t j) := by
  simp [contents_put, Cell.entry]

theorem entry_put_root : (h.put ⟨c, .root t⟩ v).contents c (.entry t j) =
    h.contents c (.entry t j) := by
  simp [contents_put, Cell.entry, Cell.root]

theorem entry_remove : (h.remove ⟨c, .entry t k⟩).contents c (.entry t j) =
    if j = k then none else h.contents c (.entry t j) := by
  simp [contents_remove, Cell.entry]

end Register

namespace Collection

open Register

variable {h : Register} {c : Address} {t : Slot} {k : Key} {v : Value} {l : List Value}
  {f : Std.ExtTreeMap Key Value compare}

theorem toNat_ofNat {n : Nat} (hn : n ≤ ceiling) : (UInt64.ofNat n).toNat = n :=
  UInt64.toNat_ofNat_of_lt' (Nat.lt_succ_of_le hn)

/-- The length of a list fits in the word that is its root. -/
theorem At.toNat_length {g : Cell → Option Value} (hl : (list l).At g t) :
    (UInt64.ofNat l.length).toNat = l.length :=
  toNat_ofNat hl.size

/-- One more is counted as long as there is room for it. -/
theorem addSat_one {n : UInt64} {i : Nat} (hn : n.toNat = i) (hi : i < ceiling) :
    addSat n 1 = UInt64.ofNat (i + 1) := by
  rw [addSat, UInt64.toNat_one, hn, clamp, if_pos (Nat.succ_le_of_lt hi)]

/-! ### Lists -/

/-- Where an array of the length `n` has no last element at `k`. -/
theorem not_last_iff {n : UInt64} {i : Nat} (hn : n.toNat = i) :
    (n = 0 ∨ k ≠ n - 1) ↔ ¬(0 < i ∧ k.toNat = i - 1) := by
  by_cases h0 : n = 0
  · have hi : i = 0 := by
      rw [← hn, h0]
      rfl
    simp [h0, hi]
  · have hi : 0 < i := Nat.pos_of_ne_zero fun hi => h0 (UInt64.toNat_inj.1 (hn.trans hi))
    have hk : k = n - 1 ↔ k.toNat = i - 1 := by rw [← UInt64.toNat_inj, toNat_sub_one h0, hn]
    simp [h0, hi, hk]

/-- An element is replaced: one cell changes, and the root stays. -/
theorem at_set (hl : (list l).At (h.contents c) t) (hk : k.toNat < l.length) :
    (list (l.set k.toNat v)).At ((h.put ⟨c, .entry t k⟩ v).contents c) t where
  root := by
    rw [contents_put_entry, hl.root, root, root, List.length_set]
  size := by
    rw [size, List.length_set]
    exact hl.size
  entries j := by
    rw [entry_put, hl.entries, get?, get?, List.getElem?_set]
    by_cases hj : j = k
    · rw [if_pos hj, if_pos (congrArg _ hj.symm), if_pos hk]
    · rw [if_neg hj, if_neg fun he => hj (UInt64.toNat_inj.1 he.symm)]

/-- An element is added at the end: its cell is the one after the last, and the root counts one
    more. -/
theorem at_push (hl : (list l).At (h.contents c) t) (hn : l.length < ceiling)
    (hk : k.toNat = l.length) : (list (l ++ [v])).At
      (((h.put ⟨c, .entry t k⟩ v).put ⟨c, .root t⟩ (.array (addSat k 1))).contents c) t where
  root := by
    rw [contents_put_root, root, addSat_one hk hn, List.length_append, List.length_singleton]
  size := by
    rw [size, List.length_append, List.length_singleton]
    exact hn
  entries j := by
    rw [entry_put_root, entry_put, hl.entries, get?, get?]
    by_cases hj : j = k
    · rw [if_pos hj, hj, hk, List.getElem?_concat_length]
    · have hn : j.toNat ≠ l.length := fun he => hj (UInt64.toNat_inj.1 (he.trans hk.symm))
      rw [if_neg hj, List.getElem?_append]
      split
      · rfl
      · rw [List.getElem?_eq_none (by omega), List.getElem?_eq_none (by simp; omega)]

/-- The last element is removed: its cell is absent, and the root counts down to its index. -/
theorem at_pop (hl : (list l).At (h.contents c) t) (hk : k.toNat + 1 = l.length) :
    (list l.dropLast).At
      (((h.remove ⟨c, .entry t k⟩).put ⟨c, .root t⟩ (.array k)).contents c) t where
  root := by
    rw [contents_put_root, root, List.length_dropLast, ← hk, Nat.add_sub_cancel, UInt64.ofNat_toNat]
  size := by
    rw [size, List.length_dropLast]
    exact (Nat.sub_le _ _).trans hl.size
  entries j := by
    rw [entry_put_root, entry_remove, hl.entries, get?, get?, List.getElem?_dropLast, ← hk,
      Nat.add_sub_cancel]
    by_cases hj : j = k
    · rw [if_pos hj, if_neg (by rw [hj]; exact Nat.lt_irrefl _)]
    · have hn : j.toNat ≠ k.toNat := fun he => hj (UInt64.toNat_inj.1 he)
      rw [if_neg hj]
      split
      · rfl
      · exact List.getElem?_eq_none (by omega)

/-! ### Maps -/

theorem getElem?_insert (j : Key) : (f.insert k v)[j]? = if j = k then some v else f[j]? := by
  rw [Std.ExtTreeMap.getElem?_insert]
  simp only [Std.LawfulEqCmp.compare_eq_iff_eq, @eq_comm _ k j]

theorem getElem?_erase (j : Key) : (f.erase k)[j]? = if j = k then none else f[j]? := by
  rw [Std.ExtTreeMap.getElem?_erase]
  simp only [Std.LawfulEqCmp.compare_eq_iff_eq, @eq_comm _ k j]

theorem size_insert : (f.insert k v).size = if k ∈ f then f.size else f.size + 1 :=
  Std.ExtTreeMap.size_insert

theorem size_erase : (f.erase k).size = if k ∈ f then f.size - 1 else f.size :=
  Std.ExtTreeMap.size_erase

/-- To remove what is missing changes nothing. -/
theorem erase_of_not_mem (hk : k ∉ f) : f.erase k = f := by
  refine Std.ExtTreeMap.ext_getElem? fun j => ?_
  rw [getElem?_erase]
  split
  · next hj =>
    rw [hj, Std.ExtTreeMap.getElem?_eq_none hk]
  · rfl

/-- An entry of a map is replaced: one cell changes, and the root stays. -/
theorem at_replace (hf : (map f).At (h.contents c) t) (hk : k ∈ f) :
    (map (f.insert k v)).At ((h.put ⟨c, .entry t k⟩ v).contents c) t where
  root := by rw [contents_put_entry, hf.root, root, root, size_insert, if_pos hk]
  size := by
    rw [size, size_insert, if_pos hk]
    exact hf.size
  entries j := by rw [entry_put, hf.entries, get?, get?, getElem?_insert]

/-- An entry is added to a map: one more cell is present, and the root counts one more. -/
theorem at_insert (hf : (map f).At (h.contents c) t) (hn : f.size < ceiling) (hk : k ∉ f) :
    (map (f.insert k v)).At (((h.put ⟨c, .entry t k⟩ v).put ⟨c, .root t⟩
      (.map (addSat (UInt64.ofNat f.size) 1))).contents c) t where
  root := by
    rw [contents_put_root, root, addSat_one (toNat_ofNat hn.le) hn, size_insert, if_neg hk]
  size := by
    rw [size, size_insert, if_neg hk]
    exact hn
  entries j := by rw [entry_put_root, entry_put, hf.entries, get?, get?, getElem?_insert]

/-- An entry is removed from a map: its cell is absent, and the root counts one less. -/
theorem at_erase (hf : (map f).At (h.contents c) t) (hk : k ∈ f) :
    (map (f.erase k)).At (((h.remove ⟨c, .entry t k⟩).put ⟨c, .root t⟩
      (.map (if UInt64.ofNat f.size = 0 then 0 else UInt64.ofNat f.size - 1))).contents c) t where
  root := by
    -- The entry that is removed has been counted.
    have hn : f.size ≠ 0 := fun he => by
      rw [Std.ExtTreeMap.eq_empty_iff_size_eq_zero.2 he] at hk
      exact Std.ExtTreeMap.not_mem_empty hk
    have hl : f.size ≤ ceiling := hf.size
    have h0 : UInt64.ofNat f.size ≠ 0 := fun he => hn (by rw [← toNat_ofNat hl, he]; rfl)
    rw [contents_put_root, root, size_erase, if_pos hk, if_neg h0]
    congr 2
    rw [← UInt64.toNat_inj, toNat_sub_one h0, toNat_ofNat hl,
      toNat_ofNat ((Nat.sub_le _ _).trans hl)]
  size := by
    rw [size, size_erase, if_pos hk]
    exact (Nat.sub_le _ _).trans hf.size
  entries j := by rw [entry_put_root, entry_remove, hf.entries, get?, get?, getElem?_erase]

/-! ### Containers that are intact -/

/-- Finitely many values make a map. -/
theorem exists_map (g : Key → Value) (s : Finset Key) : ∃ f : Std.ExtTreeMap Key Value compare,
    f.size = s.card ∧ ∀ k, f[k]? = if k ∈ s then some (g k) else none := by
  induction s using Finset.induction_on with
  | empty => exact ⟨∅, rfl, fun k => by simp⟩
  | insert a s ha ih =>
    obtain ⟨f, hf, hg⟩ := ih
    have hn : a ∉ f := by
      rw [Std.ExtTreeMap.mem_iff_isSome_getElem?, hg, if_neg ha]
      exact Bool.false_ne_true
    refine ⟨f.insert a (g a), ?_, fun k => ?_⟩
    · rw [size_insert, if_neg hn, hf, Finset.card_insert_of_notMem ha]
    · rw [getElem?_insert, hg]
      by_cases hk : k = a <;> simp [hk]

/-- A container that is intact is one for a collection. -/
theorem exists_at {g : Cell → Option Value} (hg : Intact g t) (hv : g (.root t) = some v)
    (hc : v.isContainer) : ∃ c : Collection, c.At g t ∧ c.root = v := by
  have hl (n : UInt64) : n.toNat ≤ ceiling := Nat.le_of_lt_succ n.toNat_lt
  have hs (k : Key) (hk : k ∈ keys g t) : g (.entry t k) = some ((g (.entry t k)).getD .nil) := by
    obtain ⟨w, hw⟩ := Option.isSome_iff_exists.1 hk
    rw [hw]
    rfl
  have hn (k : Key) (hk : k ∉ keys g t) : g (.entry t k) = none :=
    Option.not_isSome_iff_eq_none.1 hk
  cases v with
  | array n =>
    have hk := (intact_of_array hv).1 hg
    -- The elements are read off from first to last; by `hk` there are no gaps among the keys.
    let l := (List.range n.toNat).map fun i => (g (.entry t (UInt64.ofNat i))).getD .nil
    have hr : (list l).root = .array n := by simp [root, l]
    refine ⟨list l, ⟨hr ▸ hv, ?_, fun k => ?_⟩, hr⟩
    · simpa [size, l] using hl n
    · by_cases hkn : k < n
      · rw [hs k (hk ▸ hkn)]
        simp [get?, l, UInt64.lt_iff_toNat_lt.1 hkn]
      · rw [hn k (hk ▸ hkn), get?, List.getElem?_eq_none]
        rw [UInt64.lt_iff_toNat_lt, Nat.not_lt] at hkn
        simpa [l] using hkn
  | map n =>
    have hk := (intact_of_map hv).1 hg
    -- The keys may be any, but as many as the root says, so that they are a finite set.
    have hf : (keys g t).Finite := Set.finite_of_encard_eq_coe hk
    obtain ⟨f, hc, hg⟩ := exists_map (fun k => (g (.entry t k)).getD .nil) hf.toFinset
    have hm : f.size = n.toNat := by
      rw [hf.encard_eq_coe_toFinset_card] at hk
      rw [hc]
      exact_mod_cast hk
    have hr : (map f).root = .map n := by rw [root, hm, UInt64.ofNat_toNat]
    refine ⟨map f, ⟨hr ▸ hv, hm.trans_le (hl n), fun k => ?_⟩, hr⟩
    rw [get?, hg]
    by_cases hkn : k ∈ keys g t
    · rw [if_pos (hf.mem_toFinset.2 hkn), ← hs k hkn]
    · rw [if_neg (mt hf.mem_toFinset.1 hkn), hn k hkn]
  | _ => cases hc

end Collection

end CreditMachine
