import CreditMachine.Storage.Ledger
import CreditMachine.Storage.Overlay

/-!
# Slots and contracts as ranges

Storage finds the cells of a slot, and those of a contract, as a range of their order, by the
bounds of the range. A range has all cells between its bounds, so it must be shown that these
are the cells that are meant: a root comes before all entries under it, and no key and no slot
is beyond the greatest number. Hence a wipe forgets a slot and no more (`Overlay.wipe_eq`), a
search looks at one contract (`Overlay.holders_eq`), and what is removed with a slot is in it
(`Account.slot_eq`).
-/

namespace CreditMachine

/-- Between two bounds with the same first part, everything has this part, too, and lies between
    the bounds for the rest. -/
theorem isLE_then_iff {α : Type} [Ord α] [Std.OrientedOrd α] [Std.LawfulEqOrd α] {a x : α}
    {o o' : Ordering} : ((compare a x).then o).isLE ∧ ((compare x a).then o').isLE ↔
      x = a ∧ o.isLE ∧ o'.isLE := by
  rw [← Std.LawfulEqOrd.compare_eq_iff_eq (a := x), Std.OrientedOrd.eq_swap (a := a)]
  cases compare x a <;> simp

theorem isLE_then {o o' : Ordering} (h : o.isLE) (h' : o'.isLE) : (o.then o').isLE := by
  cases o with
  | lt => rfl
  | eq => exact h'
  | gt => cases h

/-- No number is below zero, and none is beyond the greatest one. -/
theorem isLE_zero_compare (n : UInt64) : (compare 0 n).isLE := by
  rw [Std.isLE_compare, UInt64.le_iff_toNat_le]
  exact Nat.zero_le _

theorem isLE_compare_ceiling (n : UInt64) : (compare n (UInt64.ofNat ceiling)).isLE := by
  rw [Std.isLE_compare, UInt64.le_iff_toNat_le]
  exact Nat.le_of_lt_succ n.toNat_lt

namespace Cell

variable {s : Slot}

/-- The slot comes first in the order of cells, then the key. -/
theorem compare_eq (x y : Cell) :
    compare x y = (compare x.slot y.slot).then (compare x.key y.key) := rfl

/-- A root has no entry before it. -/
theorem isLE_none_compare (k : Option Key) : (compare none k).isLE := by
  cases k <;> rfl

/-- No cell of a slot comes after the entry with the greatest key. -/
theorem isLE_compare_some_ceiling (k : Option Key) :
    (compare k (some (UInt64.ofNat ceiling))).isLE := by
  cases k with
  | none => rfl
  | some k => exact isLE_compare_ceiling k

/-- The range of a slot has all its cells, and no others. -/
theorem has_slotRange {x : Cell} : (slotRange s).has x ↔ x.slot = s := by
  rw [Bounds.has, Bool.and_eq_true, compare_eq, compare_eq]
  exact isLE_then_iff.trans
    (and_iff_left ⟨isLE_none_compare x.key, isLE_compare_some_ceiling x.key⟩)

end Cell

namespace Place

variable {c : Address} {s : Slot} {p : Place}

/-- The contract comes first in the order of places, then the cell. -/
theorem compare_eq (p q : Place) :
    compare p q = (compare p.owner q.owner).then (compare p.cell q.cell) := rfl

/-- The root of a place tells its contract and its slot. -/
theorem root_eq_iff : p.root = ⟨c, .root s⟩ ↔ p.owner = c ∧ p.cell.slot = s := by
  simp [root, Cell.root]

/-- The range of a slot of a contract has the cells with this root, and no others. -/
theorem has_slotRange : (slotRange c s).has p ↔ p.root = ⟨c, .root s⟩ := by
  rw [Bounds.has, Bool.and_eq_true, compare_eq, compare_eq, root_eq_iff]
  refine isLE_then_iff.trans (and_congr_right fun _ => ?_)
  rw [← Cell.has_slotRange, Bounds.has, Bool.and_eq_true]
  rfl

/-- The range of a contract has all its cells, and no others. -/
theorem has_contractRange : (contractRange c).has p ↔ p.owner = c := by
  rw [Bounds.has, Bool.and_eq_true, compare_eq, compare_eq]
  refine isLE_then_iff.trans (and_iff_left ⟨?_, ?_⟩) <;> rw [Cell.compare_eq]
  · exact isLE_then (isLE_zero_compare _) (Cell.isLE_none_compare _)
  · exact isLE_then (isLE_compare_ceiling _) (Cell.isLE_compare_some_ceiling _)

end Place

/-- What is removed with a slot are the cells of the slot. -/
theorem Account.slot_eq (a : Account) (s : Slot) :
    a.slot s = a.cells.keys.filter (·.slot = s) :=
  List.filter_congr fun _ _ => by
    rw [Bool.eq_iff_iff, Cell.has_slotRange, decide_eq_true_iff]

namespace Overlay

variable (o : Overlay) (c : Address)

/-- A wipe forgets the cells of the slot, and these only. -/
theorem wipe_eq (s : Slot) : o.wipe c s =
    { fills := o.fills.filter fun q _ => q.root ≠ ⟨c, .root s⟩
      staged := (⟨c, .root s⟩, none) :: o.staged.filter (·.1.root ≠ ⟨c, .root s⟩)
      wiped := o.wiped.insert ⟨c, .root s⟩ } := by
  have hr (q : Place) : (!(Place.slotRange c s).has q) = decide (q.root ≠ ⟨c, .root s⟩) := by
    rw [Bool.eq_iff_iff, Bool.not_eq_true', ← Bool.not_eq_true, Place.has_slotRange,
      decide_eq_true_iff]
  simp only [wipe, hr]

/-- The staged cells that a search finds are those of the contract. -/
theorem holders_eq (v : Value) : o.holders c v =
    o.staged.filterMap fun (p, w) => if p.owner = c ∧ w = some v then some p.cell else none := by
  simp only [holders, Place.has_contractRange]

end Overlay

end CreditMachine
