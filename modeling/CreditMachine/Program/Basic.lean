import CreditMachine.Program.Opcode
import CreditMachine.Program.Operand
import CreditMachine.Value

/-!
# Programs

A program is a pool of constants, a list of instructions, a table of methods,
and the source lines of the instructions. Nothing in it is trusted: an unknown
code or a wrong operand is found when the instruction is executed.
-/

namespace CreditMachine

/-- An instruction as it is encoded: a code, known or not, and three operands. -/
structure Instruction where
  code : UInt8
  operands : Vector Operand 3
deriving DecidableEq

namespace Instruction

/-- The instruction with the code `b` and the first three of the operands `l`,
    filled up with nothing. -/
def ofCode (b : UInt8) (l : List Operand) : Instruction :=
  ⟨b, Vector.ofFn fun i => l.getD i .none⟩

/-- The instruction `o` with the operands `l`. -/
def of (o : Opcode) (l : List Operand) : Instruction :=
  ofCode o.code l

instance : Codec Instruction where
  encode i := i.code :: i.operands.toList.flatMap encode
  decode := return ⟨← decode, #v[← decode, ← decode, ← decode]⟩

end Instruction

/-- A method of a program. -/
structure Method where
  name : String
  /-- The index of the first instruction. -/
  entry : UInt64
  /-- The number of stack slots, for the result, the arguments and the locals. -/
  frameSize : UInt32
  /-- The number of arguments. -/
  arity : UInt32
  /-- Whether the method has a result. -/
  returns : Bool
deriving DecidableEq, Inhabited

namespace Method

/-- The number of stack slots that a call takes: at least the result and the
    arguments have one each. -/
def frame (m : Method) : Nat :=
  max m.frameSize.toNat (m.arity.toNat + 1)

instance : Codec Method where
  encode m :=
    encode m.name ++ encode m.entry ++ encode m.frameSize ++ encode m.arity ++ encode m.returns
  decode := return ⟨← decode, ← decode, ← decode, ← decode, ← decode⟩

end Method

/-- A program. -/
structure Program where
  constants : Array Value
  code : Array Instruction
  methods : Array Method
  /-- The source line of each instruction; the last ones may be missing. -/
  lines : Array UInt32
deriving DecidableEq

namespace Program

/-- The program without constants, instructions and methods. -/
def empty : Program := ⟨#[], #[], #[], #[]⟩

/-- The first method with the name `s`, and its index. -/
def method? (p : Program) (s : String) : Option (Nat × Method) := do
  let i ← p.methods.findIdx? (·.name == s)
  return (i, ← p.methods[i]?)

/-- The source line of the instruction `i`, 0 if it is not known. -/
def line (p : Program) (i : Nat) : UInt32 :=
  p.lines[i]?.getD 0

instance : Codec Program where
  encode p := encode p.constants ++ encode p.code ++ encode p.methods ++ encode p.lines
  decode := return ⟨← decode, ← decode, ← decode, ← decode⟩

end Program

end CreditMachine
