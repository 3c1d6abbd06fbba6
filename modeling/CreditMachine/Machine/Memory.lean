import CreditMachine.Machine.Abort
import CreditMachine.Region
import CreditMachine.Saturating

/-!
# Memory

The constants of a program, and the stack. The stack grows and shrinks with the
frames of calls, up to a capacity; the slots of a new frame are nil.
-/

namespace CreditMachine

/-- The constants and the stack. -/
structure Memory where
  constants : Array Value
  stack : Array Value
  capacity : Nat
deriving DecidableEq

namespace Memory

/-- The memory without constants, with an empty stack. -/
def new (capacity : Nat) : Memory := ⟨#[], #[], capacity⟩

variable (m : Memory)

/-- The constant `i`, named by the address `a`. -/
def constant (i : Nat) (a : UInt64) : Except Abort Value :=
  match m.constants[i]? with
  | some v => .ok v
  | none => .error (.addressOutOfRange a)

/-- The slot `i` of the stack, named by the address `a`. -/
def slot (i : Nat) (a : UInt64) : Except Abort Value :=
  match m.stack[i]? with
  | some v => .ok v
  | none => .error (.addressOutOfRange a)

/-- The `n` slots of the stack from the slot `i` on, named by the address `a`. -/
def slots (i : Nat) (a : UInt64) : Nat → Except Abort (List Value)
  | 0 => .ok []
  | n + 1 => do return (← m.slot i a) :: (← slots (i + 1) a n)

/-- Sets the slot `i` of the stack, named by the address `a`. -/
def set (i : Nat) (v : Value) (a : UInt64) : Except Abort Memory :=
  if i < m.stack.size then .ok { m with stack := m.stack.setIfInBounds i v }
  else .error (.addressOutOfRange a)

/-- Gives up all slots from `base` on. -/
def pop (base : Nat) : Memory :=
  { m with stack := m.stack.take base }

/-- Takes `size` slots from `base` on. They are nil, and the last ones. -/
def push (base size : Nat) : Except Abort Memory :=
  let n := base + size
  let n := if n ≤ ceiling then n else ceiling
  if m.capacity < n then .error (.stackOverflow n m.capacity)
  else
    let s := m.stack.take base
    .ok { m with stack := s ++ Array.replicate (n - s.size) .nil }

/-- One line of text for each of the values `l`, under the name `c`. -/
def listing (c : String) (l : List Value) : String :=
  String.join (l.zipIdx.map fun (v, i) => "  " ++ c ++ "[" ++ i.repr ++ "] = " ++ v.text ++ "\n")

/-- The text of the memory. -/
def text : String :=
  "constants (" ++ m.constants.size.repr ++ "):\n" ++ listing "c" m.constants.toList ++
    "stack (" ++ m.stack.size.repr ++ "/" ++ m.capacity.repr ++ "):\n" ++
    listing "s" m.stack.toList

end Memory

end CreditMachine
