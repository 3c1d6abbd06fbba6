import CreditMachine.Region

/-!
# Operands

An operand of an instruction is an address, a number, or nothing. It is encoded
as a tag followed by the address or the number.
-/

namespace CreditMachine

/-- An operand of an instruction. -/
inductive Operand
  | none
  /-- An address. -/
  | addr (a : UInt64)
  /-- An immediate number. -/
  | imm (n : UInt64)
deriving DecidableEq, Inhabited

namespace Operand

/-- The kinds of operands. -/
inductive Kind
  | none
  | addr
  | imm
deriving DecidableEq

/-- The tag that a kind of operands is encoded by. -/
def Kind.tag : Kind → UInt8
  | .none => 0
  | .addr => 1
  | .imm => 2

/-- The kind of operands that a tag stands for. -/
def Kind.ofTag : UInt8 → Except DecodeError Kind
  | 0 => .ok .none
  | 1 => .ok .addr
  | 2 => .ok .imm
  | _ => .error .invalidValue

/-- The text of a kind of operands. -/
def Kind.text : Kind → String
  | .none => "nothing"
  | .addr => "an address"
  | .imm => "an immediate"

def kind : Operand → Kind
  | .none => .none
  | .addr _ => .addr
  | .imm _ => .imm

/-- The address of the constant `n`. -/
def constant (n : UInt64) : Operand := .addr n

/-- The address of the slot `n` of the active stack frame. -/
def stack (n : UInt64) : Operand := .addr (stackBase + n)

/-- The address of the root of the slot `s`. -/
def persistent (s : Slot) : Operand := .addr (storageBase + s)

instance : Codec Operand where
  encode o := o.kind.tag :: match o with
    | .none => []
    | .addr a => encode a
    | .imm n => encode n
  decode := do
    match ← Kind.ofTag (← decode) with
    | .none => return .none
    | .addr => return .addr (← decode)
    | .imm => return .imm (← decode)

end Operand

end CreditMachine
