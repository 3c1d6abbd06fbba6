import CreditMachine.Address
import CreditMachine.Saturating
import CreditMachine.Text.Decimal

/-!
# Cells

The storage of a contract is made of *slots*. A slot has a *root* cell and any
number of *entries* under it, each with a key. Cells are ordered by their slot,
the root before the entries, and these by their key; a cell of some contract
(`Place`) is ordered by the contract first. So the cells of a slot make up a range
of the order, and so do those of a contract.
-/

namespace CreditMachine

/-- The number of a slot. -/
abbrev Slot := UInt64

/-- The key of an entry under a slot. -/
abbrev Key := UInt64

/-- The bounds of a range, which are in the range. -/
structure Bounds (α : Type) where
  first : α
  last : α

/-- Whether `x` is in a range. -/
def Bounds.has {α : Type} [Ord α] (r : Bounds α) (x : α) : Bool :=
  (compare r.first x).isLE && (compare x r.last).isLE

/-- A cell of a contract: the root of a slot, or the entry with a key. -/
structure Cell where
  slot : Slot
  key : Option Key
deriving DecidableEq, Inhabited

namespace Cell

/-- The root of the slot `s`. -/
@[match_pattern] def root (s : Slot) : Cell := ⟨s, none⟩

/-- The entry `k` under the slot `s`. -/
@[match_pattern] def entry (s : Slot) (k : Key) : Cell := ⟨s, some k⟩

def isRoot (x : Cell) : Bool := x.key.isNone

/-- The text of a cell. -/
def text (x : Cell) : String :=
  match x.key with
  | none => "#" ++ Text.decimal x.slot
  | some k => "#" ++ Text.decimal x.slot ++ "[" ++ Text.decimal k ++ "]"

instance : Ord Cell := ⟨compareLex (compareOn slot) (compareOn key)⟩

instance : Std.TransOrd Cell :=
  inferInstanceAs (Std.TransCmp (compareLex (compareOn slot) (compareOn key)))

instance : Std.LawfulEqOrd Cell where
  eq_of_compare {x y} h := by
    cases x
    cases y
    obtain ⟨h₁, h₂⟩ := Ordering.then_eq_eq.1 h
    exact congr (congrArg mk (Std.LawfulEqOrd.eq_of_compare h₁)) (Std.LawfulEqOrd.eq_of_compare h₂)

/-- The range of the slot `s`: from the root to the entry with the greatest key. -/
def slotRange (s : Slot) : Bounds Cell :=
  ⟨root s, entry s (UInt64.ofNat ceiling)⟩

instance : Codec Cell where
  encode x := encode x.slot ++ encode x.key
  decode := return ⟨← decode, ← decode⟩

end Cell

/-- A cell of the contract `owner`. -/
structure Place where
  owner : Address
  cell : Cell
deriving DecidableEq, Inhabited

namespace Place

/-- The text of a place. -/
def text (p : Place) : String :=
  p.owner.text ++ p.cell.text

instance : Ord Place := ⟨compareLex (compareOn owner) (compareOn cell)⟩

instance : Std.TransOrd Place :=
  inferInstanceAs (Std.TransCmp (compareLex (compareOn owner) (compareOn cell)))

instance : Std.LawfulEqOrd Place where
  eq_of_compare {p q} h := by
    cases p
    cases q
    obtain ⟨h₁, h₂⟩ := Ordering.then_eq_eq.1 h
    exact congr (congrArg mk (Std.LawfulEqOrd.eq_of_compare h₁)) (Std.LawfulEqOrd.eq_of_compare h₂)

/-- The range of a slot of the contract `c`. -/
def slotRange (c : Address) (s : Slot) : Bounds Place :=
  ⟨⟨c, (Cell.slotRange s).first⟩, ⟨c, (Cell.slotRange s).last⟩⟩

/-- The range of the contract `c`: from the root of the first slot to the last entry of
    the last one. -/
def contractRange (c : Address) : Bounds Place :=
  ⟨⟨c, .root 0⟩, ⟨c, .entry (UInt64.ofNat ceiling) (UInt64.ofNat ceiling)⟩⟩

end Place

end CreditMachine
