import CreditMachine.Program.Basic

/-!
# Building programs

An assembly is a program under construction: constants, methods and
instructions are added at the end, and an operand may be set later, when the
target of a jump is known.
-/

namespace CreditMachine

/-- A program under construction. -/
structure Assembly where
  program : Program
  /-- The source line of the instructions to come. -/
  line : UInt32

namespace Assembly

/-- The assembly of an empty program. -/
def empty : Assembly := ⟨.empty, 0⟩

variable (m : Assembly)

/-- The index of the next instruction. -/
def here : Nat :=
  m.program.code.size

/-- Adds a constant. Its address is the number of constants before it. -/
def constant (v : Value) : Nat × Assembly :=
  (m.program.constants.size,
    { m with program.constants := m.program.constants.push v })

/-- Starts a method at the next instruction. Its index is the number of methods
    before it. -/
def method (name : String) (frameSize arity : UInt32) (returns : Bool) : Nat × Assembly :=
  let d : Method := ⟨name, UInt64.ofNat m.here, frameSize, arity, returns⟩
  (m.program.methods.size, { m with program.methods := m.program.methods.push d })

/-- Sets the source line of the instructions to come. -/
def atLine (n : UInt32) : Assembly :=
  { m with line := n }

/-- Adds an instruction. -/
def emit (i : Instruction) : Assembly :=
  { m with
    program.code := m.program.code.push i
    program.lines := m.program.lines.push m.line }

/-- Sets the operand `n` of the instruction `i`, if there are such. -/
def patch (i n : Nat) (o : Operand) : Assembly :=
  { m with
    program.code := m.program.code.modify i fun d =>
      if h : n < 3 then { d with operands := d.operands.set n o } else d }

end Assembly

end CreditMachine
