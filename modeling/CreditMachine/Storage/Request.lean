import CreditMachine.Value

/-!
# Requests to storage

Storage is used through requests, each about the cells of one contract and each
with an answer of its own type. An absent cell is an answer; an error is
something else: a refusal, or a failure of what is below.

A *backend* on states `σ` answers requests and goes from state to state. Layers
are functions from backends to backends.
-/

namespace CreditMachine

/-- A request to storage, about the contract `c`. -/
inductive Request
  /-- The value of a cell. -/
  | read (c : Address) (x : Cell)
  /-- Replaces the value of a cell. -/
  | write (c : Address) (x : Cell) (v : Value)
  /-- Removes the root of a slot and all entries under it. -/
  | erase (c : Address) (s : Slot)
  /-- Removes an entry. -/
  | eraseEntry (c : Address) (s : Slot) (k : Key)
  /-- Makes an absent root an empty map. Answers whether it was absent. -/
  | allocate (c : Address) (s : Slot)
  /-- The cells that hold a value, the one written last first. -/
  | holders (c : Address) (v : Value)
deriving DecidableEq

/-- Why a request has no answer. -/
inductive StorageError
  /-- The operation would change a storage that may only be read. -/
  | readOnly (operation : String)
  /-- The durable store failed. -/
  | backend (reason : String)
  /-- A stored value is corrupt. -/
  | decode (reason : String)
deriving DecidableEq

namespace StorageError

def message : StorageError → String
  | .readOnly operation => "storage is read-only: " ++ operation ++ " rejected"
  | .backend reason => "backend failure: " ++ reason
  | .decode reason => "corrupt stored value: " ++ reason

/-- Whether an error ends a whole execution, not only the call that met it. -/
def isFatal : StorageError → Bool
  | .readOnly _ => false
  | .backend _ | .decode _ => true

end StorageError

namespace Request

/-- The type of the answer to a request. -/
@[reducible] def Answer : Request → Type
  | .read .. => Option Value
  | .write .. | .erase .. | .eraseEntry .. => Unit
  | .allocate .. => Bool
  | .holders .. => List Cell

/-- The contract whose cells a request is about. -/
def contract : Request → Address
  | .read c _ | .write c _ _ | .erase c _ | .eraseEntry c _ _ | .allocate c _ | .holders c _ => c

/-- Whether a request may change cells. -/
def mutates : Request → Bool
  | .read .. | .holders .. => false
  | .write .. | .erase .. | .eraseEntry .. | .allocate .. => true

/-- The name of the operation that a request asks for. -/
def operation : Request → String
  | .read _ x => if x.isRoot then "read" else "read_key"
  | .write _ x _ => if x.isRoot then "write" else "write_key"
  | .erase .. => "erase"
  | .eraseEntry .. => "erase_key"
  | .allocate .. => "add_key"
  | .holders .. => "lookup_candidates"

end Request

/-- Answers requests, or fails, and goes to the next state in either case. -/
abbrev Backend (σ : Type) := (r : Request) → σ → Except StorageError r.Answer × σ

namespace Backend

variable {σ : Type} (b : Backend σ)

/-- The cell that holds `v` and was written last. -/
def lookup (c : Address) (v : Value) (s : σ) : Except StorageError (Option Cell) × σ :=
  let (a, s) := b (.holders c v) s
  (a.map List.head?, s)

/-- Makes requests in turn, up to the first that fails. -/
def replay : List Request → σ → Except StorageError Unit × σ
  | [], s => (.ok (), s)
  | r :: l, s =>
    match b r s with
    | (.ok _, s) => replay l s
    | (.error e, s) => (.error e, s)

end Backend

end CreditMachine
