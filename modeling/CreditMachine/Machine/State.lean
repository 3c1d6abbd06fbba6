import CreditMachine.Machine.Credits
import CreditMachine.Machine.Memory
import CreditMachine.Program.Basic

/-!
# Machines

A machine executes a program for one contract. It is made for a contract, a
program is loaded, and an execution is begun at an entry with arguments and a
budget; it then runs until the outermost frame returns, or until it aborts. The
same machine may be begun again after that.

The stack is divided into *frames*, one for each call that has not returned. A
call of another contract is run by a machine of its own.

A machine keeps the operands of an instruction in a buffer, from which they are taken
one by one. The buffer is filled when an instruction is about to be executed, and
nothing else resets it.
-/

namespace CreditMachine

/-- Finds the programs of contracts. -/
abbrev Registry := Address → Option Program

/-- Where an execution begins. -/
inductive Entry
  /-- At the method with a name. -/
  | method (name : String)
  /-- At the method with an index. -/
  | index (i : UInt64)
  /-- At an instruction, with a frame of a size. -/
  | offset (i : UInt64) (frameSize : UInt32)
deriving DecidableEq

/-- The text of an entry. -/
def Entry.text : Entry → String
  | .method name => name
  | .index i => "#" ++ Text.decimal i
  | .offset i _ => "@" ++ Text.decimal i

/-- The frame of a call. -/
structure Frame where
  /-- The first slot of the stack. -/
  base : Nat
  /-- The number of slots. -/
  size : Nat
  /-- The instruction to go on at after the call. -/
  returnTo : Nat
  /-- The slot of the caller that takes the result; none for the outermost. -/
  resultAt : Option Nat
deriving DecidableEq

/-- The operands of an instruction, and how many of them have been taken. -/
structure Operands where
  buffer : Vector Operand 3
  cursor : Nat
deriving DecidableEq

namespace Operands

/-- The operands of an instruction, of which none has been taken. -/
def of (l : Vector Operand 3) : Operands := ⟨l, 0⟩

variable (x : Operands)

/-- One more operand has been taken. -/
def advance : Operands := { x with cursor := x.cursor + 1 }

/-- Takes the next operand, with its index. There are none beyond the last one. -/
def next : (Nat × Operand) × Operands :=
  ((x.cursor, x.buffer[x.cursor]?.getD .none), x.advance)

/-- Takes the next operand if it is there and is none. -/
def skip : Bool × Operands :=
  if x.buffer[x.cursor]? = some .none then (true, x.advance) else (false, x)

end Operands

/-- How far an execution has got. -/
inductive Status
  | idle
  | loaded
  | running
  | finished
  | aborted
deriving DecidableEq

def Status.text : Status → String
  | .idle => "Idle"
  | .loaded => "Loaded"
  | .running => "Running"
  | .finished => "Finished"
  | .aborted => "Aborted"

/-- The greatest number of slots of a stack. -/
def stackCapacity : Nat := 1024

/-- The greatest number of calls that have not returned, in all machines. -/
def maxDepth : Nat := 64

/-- A machine. -/
structure Machine where
  /-- The contract whose storage is used. -/
  contract : Address
  /-- Whether storage may only be read. -/
  constantOnly : Bool
  /-- Finds the programs of other contracts. -/
  registry : Registry
  /-- The number of calls in the machines that wait for this one. -/
  depth : Nat
  program : Option Program
  memory : Memory
  /-- The calls that have not returned, the last one first. -/
  frames : List Frame
  credits : Credits
  /-- The index of the next instruction. -/
  next : Nat
  /-- The index of the instruction being executed. -/
  offset : Nat
  /-- The operands of the instruction being executed, or of the last one that was. -/
  operands : Operands
  status : Status
  /-- Whether the entry has a result. -/
  returns : Bool

namespace Machine

/-- A machine for the contract `c`. -/
def new (c : Address) (constantOnly : Bool) (registry : Registry) (depth : Nat) : Machine where
  contract := c
  constantOnly := constantOnly
  registry := registry
  depth := depth
  program := none
  memory := .new stackCapacity
  frames := []
  credits := .new 0
  next := 0
  offset := 0
  operands := .of (.replicate 3 .none)
  status := .idle
  returns := false

variable (m : Machine)

/-- Loads a program. -/
def load (p : Program) : Machine :=
  { m with
    memory.constants := p.constants
    program := some p
    status := .loaded }

/-- Where an execution begins, and with what frame. -/
structure Target where
  name : String
  offset : Nat
  frame : Nat
  arity : Nat
  returns : Bool

/-- The target of an entry of the program `p`, called with `n` arguments. -/
def target (p : Program) (n : Nat) : Entry → Except Abort Target
  | .method name =>
    match p.method? name with
    | some (_, d) => .ok ⟨d.name, d.entry.toNat, d.frame, d.arity.toNat, d.returns⟩
    | none => .error (.undefinedMethod name)
  | .index i =>
    match p.methods[i.toNat]? with
    | some d => .ok ⟨d.name, d.entry.toNat, d.frame, d.arity.toNat, d.returns⟩
    | none => .error (.undefinedMethod (Entry.index i).text)
  | .offset i frameSize =>
    .ok ⟨(Entry.offset i frameSize).text, i.toNat, max frameSize.toNat (n + 1), n, true⟩

/-- Writes arguments to the slots of the frame at `base`, from its slot `i` on. -/
def passArgs (base : Nat) : Nat → List Value → Memory → Except Abort Memory
  | _, [], k => .ok k
  | i, v :: l, k => do
    passArgs base (i + 1) l (← k.set (base + i) v (stackBase + UInt64.ofNat i))

/-- Begins an execution at the entry `e`, with arguments and a budget. If this
    fails, it may have reset the credits and given up the frames. -/
def begin (e : Entry) (args : List Value) (budget : UInt64) : Except Abort Unit × Machine :=
  match m.program with
  | none => (.error .notRunning, m)
  | some p =>
    match target p args.length e with
    | .error a => (.error a, m)
    | .ok t =>
      if args.length ≠ t.arity then
        (.error (.arityMismatch t.name (UInt64.ofNat t.arity) (UInt64.ofNat args.length)), m)
      else
        let m := { m with credits := .new budget, frames := [] }
        match m.memory.push 0 t.frame with
        | .error a => (.error a, m)
        | .ok k =>
          match passArgs 0 1 args k with
          | .error a => (.error a, { m with memory := k })
          | .ok k =>
            (.ok (), { m with
              memory := k
              frames := [⟨0, t.frame, 0, none⟩]
              next := t.offset
              offset := t.offset
              returns := t.returns
              status := .running })

/-- The value of the slot `i` of the active frame. -/
def stackValue (i : Nat) : Option Value := do
  let f ← m.frames.head?
  if i < f.size then m.memory.stack[f.base + i]? else none

/-- The result of an execution that has finished, if its entry has one. -/
def result : Option Value :=
  if m.status = .finished ∧ m.returns then m.stackValue 0 else none

/-- The report of an abort at the instruction being executed. -/
def report (e : Abort) (limit : Nat) : Report :=
  e.report m.offset ((m.program.map (·.line m.offset)).getD 0) limit

/-- The text of the memory, the frames and the state of a machine. -/
def dump : String :=
  let frame (f : Frame) (i : Nat) : String :=
    "  #" ++ i.repr ++ " base=" ++ f.base.repr ++ " size=" ++ f.size.repr ++ " return_addr=" ++
      f.returnTo.repr ++ "\n"
  m.memory.text ++ "frames (" ++ m.frames.length.repr ++ "):\n" ++
    String.join (m.frames.reverse.zipIdx.map fun (f, i) => frame f i) ++
    "ip=" ++ m.next.repr ++ " state=" ++ m.status.text ++ " credits=" ++
    Text.decimal m.credits.used ++ "/" ++ Text.decimal m.credits.budget ++ "\n"

end Machine

end CreditMachine
