import CreditMachine.Storage.Ledger
import CreditMachine.Storage.Meter
import CreditMachine.Storage.Outage
import CreditMachine.Storage.Overlay

/-!
# Racks of layers

Layers of storage that stand on each other, several of them on the same one if
need be. Each layer is named by its number, and stands on a layer with a lower
number.
-/

namespace CreditMachine

/-- A layer, on the layer with the number `below`. -/
inductive Layer
  | ledger (l : Ledger)
  | overlay (o : Overlay) (below : Nat)
  | meter (m : Meter) (below : Nat)
  | outage (g : Outage) (below : Nat)

/-- Layers by their numbers. -/
structure Rack where
  layers : Array Layer

namespace Rack

/-- The error of a layer that is not there. -/
def missing : StorageError := .backend "no such layer"

/-- Replaces the layer `i`. -/
def set (k : Rack) (i : Nat) (l : Layer) : Rack :=
  ⟨k.layers.setIfInBounds i l⟩

/-- The layer `i` of a rack as a backend. -/
def backend (i : Nat) (r : Request) (k : Rack) : Except StorageError r.Answer × Rack :=
  match k.layers[i]? with
  | none => (.error missing, k)
  | some (.ledger l) =>
    let (a, l) := Ledger.backend r l
    (a, k.set i (.ledger l))
  | some (.overlay o j) =>
    if j < i then
      let (a, o, k) := Overlay.backend (backend j) r (o, k)
      (a, k.set i (.overlay o j))
    else (.error missing, k)
  | some (.meter m j) =>
    if j < i then
      let (a, m, k) := Meter.backend (backend j) r (m, k)
      (a, k.set i (.meter m j))
    else (.error missing, k)
  | some (.outage g j) =>
    if j < i then
      let (a, g, k) := Outage.backend (backend j) r (g, k)
      (a, k.set i (.outage g j))
    else (.error missing, k)
termination_by i

/-- Commits the overlay at the layer `i`. -/
def commit (i : Nat) (k : Rack) : Except StorageError Nat × Rack :=
  match k.layers[i]? with
  | some (.overlay o j) =>
    let (a, o, k) := o.commit (backend j) k
    (a, k.set i (.overlay o j))
  | _ => (.error missing, k)

/-- Drops the changes of the overlay at the layer `i`. -/
def discard (i : Nat) (k : Rack) : Rack :=
  match k.layers[i]? with
  | some (.overlay _ j) => k.set i (.overlay .empty j)
  | _ => k

/-- Puts the meter at the layer `i` back to zero. -/
def reset (i : Nat) (k : Rack) : Rack :=
  match k.layers[i]? with
  | some (.meter m j) => k.set i (.meter (.new m.readOnly) j)
  | _ => k

/-- The ledger at the layer `i`. -/
def ledger (i : Nat) (k : Rack) : Ledger :=
  match k.layers[i]? with
  | some (.ledger l) => l
  | _ => .empty

end Rack

end CreditMachine
