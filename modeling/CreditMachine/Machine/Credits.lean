import CreditMachine.Machine.Abort
import CreditMachine.Saturating

/-!
# Credits

An execution has a budget of credits. Whatever it does is charged, under a
category, and what does not fit into the budget is not charged at all.
-/

namespace CreditMachine

/-- What credits are spent on. -/
inductive Category
  /-- Executing an instruction. -/
  | opcode
  /-- The bytes of values read from storage. -/
  | storageRead
  /-- The bytes of values written to storage. -/
  | storageWrite
  /-- The arguments of calls. -/
  | callOverhead
deriving DecidableEq

namespace Category

def all : List Category := [.opcode, .storageRead, .storageWrite, .callOverhead]

def text : Category → String
  | .opcode => "Opcode"
  | .storageRead => "Storage Read"
  | .storageWrite => "Storage Write"
  | .callOverhead => "Call Overhead"

end Category

/-- Credits by category. -/
structure Profile where
  opcode : UInt64
  storageRead : UInt64
  storageWrite : UInt64
  callOverhead : UInt64
deriving DecidableEq

namespace Profile

def zero : Profile := ⟨0, 0, 0, 0⟩

variable (p : Profile)

/-- The credits of the category `c`. -/
def get : Category → UInt64
  | .opcode => p.opcode
  | .storageRead => p.storageRead
  | .storageWrite => p.storageWrite
  | .callOverhead => p.callOverhead

/-- The profile with `n` more credits of the category `c`. -/
def add (c : Category) (n : UInt64) : Profile :=
  match c with
  | .opcode => { p with opcode := addSat p.opcode n }
  | .storageRead => { p with storageRead := addSat p.storageRead n }
  | .storageWrite => { p with storageWrite := addSat p.storageWrite n }
  | .callOverhead => { p with callOverhead := addSat p.callOverhead n }

/-- The sum of two profiles. -/
def merge (q : Profile) : Profile :=
  Category.all.foldl (fun p c => p.add c (q.get c)) p

/-- The credits of all categories. -/
def total : UInt64 :=
  Category.all.foldl (fun n c => addSat n (p.get c)) 0

end Profile

/-- The credits of an execution. -/
structure Credits where
  budget : UInt64
  used : UInt64
  profile : Profile
deriving DecidableEq

namespace Credits

/-- A fresh budget. -/
def new (budget : UInt64) : Credits := ⟨budget, 0, .zero⟩

variable (k : Credits)

/-- The credits that are left. -/
def remaining : UInt64 := k.budget - k.used

/-- Spends `n` credits on `c`. -/
def charge (c : Category) (n : UInt64) : Except Abort Credits :=
  if k.remaining < n then .error (.outOfCredits n k.remaining k.budget)
  else .ok { k with used := k.used + n, profile := k.profile.add c n }

/-- Adds what a nested execution has spent. -/
def absorb (used : UInt64) (p : Profile) : Credits :=
  let n := addSat k.used used
  { k with used := if n ≤ k.budget then n else k.budget, profile := k.profile.merge p }

end Credits

end CreditMachine
