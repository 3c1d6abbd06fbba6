import CreditMachine.Storage.Request
import Std.Data.ExtTreeMap
import Std.Data.ExtTreeSet

/-!
# Overlays

An overlay stands before a backend and keeps all changes to itself until they
are committed. It holds

* the *staged* changes, one for each changed cell, the last made first;
* the slots that were *wiped*: what is below them is hidden;
* *fills*: what was read from below, absence included.

A cell reads as it is staged, else as it was filled, else as absent in a wiped
slot, and else from below. A commit makes the changes below: first the wipes,
then the staged changes in the order in which they were made, so that the cells
that hold a value come in the same order below as here.
-/

namespace CreditMachine

/-- What an overlay knows that is not below. -/
structure Overlay where
  /-- What was read from below. -/
  fills : Std.ExtTreeMap Place (Option Value) compare
  /-- The changed cells with their values, the last change first. -/
  staged : List (Place × Option Value)
  /-- The roots of the wiped slots. -/
  wiped : Std.ExtTreeSet Place compare

/-- The changes that an overlay holds, in the order of the cells. Overlays with
    the same changes have the same change set, in whatever order they were made. -/
structure ChangeSet where
  /-- The slots to erase. -/
  wiped : List (Address × Slot)
  /-- The changed cells with their values, or none for an erased cell. -/
  cells : List (Place × Option Value)
deriving DecidableEq

def ChangeSet.isEmpty (d : ChangeSet) : Bool :=
  d.wiped.isEmpty && d.cells.isEmpty

/-- The root of the slot of a cell. -/
def Place.root (p : Place) : Place :=
  ⟨p.owner, .root p.cell.slot⟩

namespace Overlay

/-- The overlay without changes. -/
def empty : Overlay := ⟨∅, [], ∅⟩

variable {σ : Type} (o : Overlay) (b : Backend σ)

/-- The value of a cell as far as the overlay knows it. -/
def known? (p : Place) : Option (Option Value) :=
  match o.staged.lookup p with
  | some v => some v
  | none =>
    match o.fills[p]? with
    | some v => some v
    | none => if p.root ∈ o.wiped then some none else none

/-- Stages the value of a cell, or none to erase it. -/
def stage (p : Place) (v : Option Value) : Overlay :=
  { o with staged := (p, v) :: o.staged.filter (·.1 ≠ p) }

/-- Wipes the slot of the contract `c`: forgets all about its cells, and stages
    the absence of its root. -/
def wipe (c : Address) (s : Slot) : Overlay :=
  let p : Place := ⟨c, .root s⟩
  let r := Place.slotRange c s
  { fills := o.fills.filter fun q _ => !r.has q
    staged := (p, none) :: o.staged.filter (!r.has ·.1)
    wiped := o.wiped.insert p }

/-- The cells of the contract `c` that are staged with `v`, the last first. -/
def holders (c : Address) (v : Value) : List Cell :=
  let r := Place.contractRange c
  o.staged.filterMap fun (p, w) => if r.has p ∧ w = some v then some p.cell else none

/-- Whether the overlay hides what a cell holds below. -/
def hides (p : Place) : Bool :=
  p.root ∈ o.wiped || (o.staged.lookup p).isSome

/-- Reads a cell, from below if need be, and remembers what was read. -/
def fetch (p : Place) (s : σ) : Except StorageError (Option Value) × Overlay × σ :=
  match o.known? p with
  | some v => (.ok v, o, s)
  | none =>
    match b (.read p.owner p.cell) s with
    | (.ok v, s) => (.ok v, { o with fills := o.fills.insert p v }, s)
    | (.error e, s) => (.error e, o, s)

/-- An overlay over the backend `b`. -/
def backend : Backend (Overlay × σ)
  | .read c x, (o, s) => o.fetch b ⟨c, x⟩ s
  | .write c x v, (o, s) => (.ok (), o.stage ⟨c, x⟩ (some v), s)
  | .erase c t, (o, s) => (.ok (), o.wipe c t, s)
  | .eraseEntry c t k, (o, s) => (.ok (), o.stage ⟨c, .entry t k⟩ none, s)
  | .allocate c t, (o, s) =>
    match o.fetch b ⟨c, .root t⟩ s with
    | (.ok none, o, s) => (.ok true, o.stage ⟨c, .root t⟩ (some (.map 0)), s)
    | (.ok (some _), o, s) => (.ok false, o, s)
    | (.error e, o, s) => (.error e, o, s)
  | .holders c v, (o, s) =>
    match b (.holders c v) s with
    | (.ok l, s) => (.ok (o.holders c v ++ l.filter fun x => !o.hides ⟨c, x⟩), o, s)
    | (.error e, s) => (.error e, o, s)

/-! ### Changes -/

/-- The number of changed cells. -/
def pending : Nat := o.staged.length

/-- Whether a commit would change anything. -/
def isDirty : Bool := !o.wiped.isEmpty || !o.staged.isEmpty

/-- The changes, in the order of the cells. -/
def changeSet : ChangeSet where
  wiped := o.wiped.toList.map fun p => (p.owner, p.cell.slot)
  cells := o.staged.mergeSort fun p q => (compare p.1 q.1).isLE

/-- The request that makes a staged change below. A root is only ever erased
    together with its slot, by the wipe. -/
def change? : Place × Option Value → Option Request
  | (p, some v) => some (.write p.owner p.cell v)
  | (p, none) => p.cell.key.map (.eraseEntry p.owner p.cell.slot)

/-- The requests that make the changes below. -/
def changes : List Request :=
  o.wiped.toList.map (fun p => .erase p.owner p.cell.slot) ++ o.staged.reverse.filterMap change?

/-- The overlay after its changes were made below: it knows what it knew. -/
def settled : Overlay where
  fills := o.staged.foldl (fun m (p, v) => m.insert p v) o.fills
  staged := []
  wiped := ∅

/-- Makes the changes below, and answers how many cells were changed. If this
    fails, the overlay keeps all its changes, of which some may have been made. -/
def commit (s : σ) : Except StorageError Nat × Overlay × σ :=
  match b.replay o.changes s with
  | (.ok (), s) => (.ok o.pending, o.settled, s)
  | (.error e, s) => (.error e, o, s)

end Overlay

end CreditMachine
