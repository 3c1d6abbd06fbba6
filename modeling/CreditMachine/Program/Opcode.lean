import CreditMachine.Codec

/-!
# The instruction set

Every instruction has an *opcode*, which fixes its code (one byte), its
mnemonic, the number of its operands, and the credits that it costs before it
does anything.

Below, `dst` is the first operand, an address to write to; `a` and `b` are the
operands after it, values; `root` is the address of a root in storage, and `key`
is a value that is a 64-bit number.
-/

namespace CreditMachine

/-- The instructions. -/
inductive Opcode
  /-- Does nothing. -/
  | nop
  /-- `dst = a` -/
  | copy
  /-- `dst = a + b` -/
  | add
  /-- `dst = a - b` -/
  | sub
  /-- `dst = a * b` -/
  | mul
  /-- `dst = a / b` -/
  | div
  /-- `dst = a % b` -/
  | mod
  /-- `dst = a & b` -/
  | and
  /-- `dst = a | b` -/
  | or
  /-- `dst = a ^ b` -/
  | xor
  /-- `dst = ~a` -/
  | not
  /-- `dst = (a == b)`, of any types -/
  | eq
  /-- `dst = (a < b)` -/
  | lt
  /-- `dst = (a > b)` -/
  | gt
  /-- `dst = (a <= b)` -/
  | le
  /-- `dst = (a >= b)` -/
  | ge
  /-- `dst = a ++ b`, two texts or two blobs -/
  | concat
  /-- `dst =` the bytes of a text or a blob, or the entries of a container -/
  | len
  /-- Goes on at a target. -/
  | jmp
  /-- Goes on at a target if a value is false. -/
  | jz
  /-- Goes on at a target if a value is true. -/
  | jnz
  /-- Calls a method of the program: arguments after a base, result at it. -/
  | call
  /-- Calls a method of the contract whose address is at the base. -/
  | xcall
  /-- Returns slot 0 of the active frame. -/
  | ret
  /-- `dst = root[key]` -/
  | sload
  /-- `root[key] = a` -/
  | sstore
  /-- Removes `root[key]`. -/
  | sdel
  /-- Removes a root and all entries under it. -/
  | serase
  /-- Makes a root an empty map, or confirms that it is a map. -/
  | newmap
  /-- Makes a root an empty array, or confirms that it is an array. -/
  | newarr
  /-- Adds an element at the end of an array. -/
  | append
  /-- `dst =` what a reference refers to -/
  | deref
  /-- Writes what a reference refers to. -/
  | storeref
  /-- `dst =` a reference to a cell that holds `a`, or nothing -/
  | find
  /-- `dst =` whether a cell is there -/
  | present
deriving DecidableEq, Inhabited

namespace Opcode

/-- All opcodes, in the order of their codes. -/
def all : List Opcode :=
  [.nop, .copy, .add, .sub, .mul, .div, .mod, .and, .or, .xor, .not, .eq, .lt, .gt, .le, .ge,
   .concat, .len, .jmp, .jz, .jnz, .call, .xcall, .ret, .sload, .sstore, .sdel, .serase, .newmap,
   .newarr, .append, .deref, .storeref, .find, .present]

/-- The byte that an opcode is encoded by. -/
def code : Opcode → UInt8
  | .nop => 0x00
  | .copy => 0x01
  | .add => 0x10
  | .sub => 0x11
  | .mul => 0x12
  | .div => 0x13
  | .mod => 0x14
  | .and => 0x15
  | .or => 0x16
  | .xor => 0x17
  | .not => 0x18
  | .eq => 0x20
  | .lt => 0x21
  | .gt => 0x22
  | .le => 0x23
  | .ge => 0x24
  | .concat => 0x28
  | .len => 0x29
  | .jmp => 0x30
  | .jz => 0x31
  | .jnz => 0x32
  | .call => 0x33
  | .xcall => 0x34
  | .ret => 0x35
  | .sload => 0x40
  | .sstore => 0x41
  | .sdel => 0x42
  | .serase => 0x43
  | .newmap => 0x44
  | .newarr => 0x45
  | .append => 0x46
  | .deref => 0x47
  | .storeref => 0x48
  | .find => 0x49
  | .present => 0x4A

def mnemonic : Opcode → String
  | .nop => "NOP"
  | .copy => "COPY"
  | .add => "ADD"
  | .sub => "SUB"
  | .mul => "MUL"
  | .div => "DIV"
  | .mod => "MOD"
  | .and => "AND"
  | .or => "OR"
  | .xor => "XOR"
  | .not => "NOT"
  | .eq => "EQ"
  | .lt => "LT"
  | .gt => "GT"
  | .le => "LE"
  | .ge => "GE"
  | .concat => "CONCAT"
  | .len => "LEN"
  | .jmp => "JMP"
  | .jz => "JZ"
  | .jnz => "JNZ"
  | .call => "CALL"
  | .xcall => "XCALL"
  | .ret => "RET"
  | .sload => "SLOAD"
  | .sstore => "SSTORE"
  | .sdel => "SDEL"
  | .serase => "SERASE"
  | .newmap => "NEWMAP"
  | .newarr => "NEWARR"
  | .append => "APPEND"
  | .deref => "DEREF"
  | .storeref => "STOREREF"
  | .find => "FIND"
  | .present => "EXISTS"

/-- The number of operands that an instruction takes; the others are ignored. -/
def arity : Opcode → Nat
  | .nop | .ret => 0
  | .jmp | .serase | .newmap | .newarr => 1
  | .copy | .not | .len | .jz | .jnz | .sdel | .append | .deref | .storeref | .find => 2
  | .add | .sub | .mul | .div | .mod | .and | .or | .xor | .eq | .lt | .gt | .le | .ge | .concat
  | .call | .xcall | .sload | .sstore | .present => 3

/-- The credits that an instruction costs before it does anything. -/
def cost : Opcode → UInt64
  | .nop | .not => 1
  | .copy | .and | .or | .xor | .len => 2
  | .add | .sub | .eq | .lt | .gt | .le | .ge => 3
  | .mul | .jmp | .jz | .jnz | .ret => 5
  | .div | .mod | .concat => 10
  | .call | .sload | .deref | .present => 50
  | .sdel | .newmap | .newarr | .find => 100
  | .xcall | .sstore | .serase | .append | .storeref => 200

/-- Whether an instruction always changes storage. Others change it only if
    their destination is in storage. -/
def mutates : Opcode → Bool
  | .sstore | .sdel | .serase | .newmap | .newarr | .append | .storeref => true
  | _ => false

/-- The opcode with the code `b`. -/
def ofCode? (b : UInt8) : Option Opcode :=
  all.find? (·.code == b)

/-- The opcode with the mnemonic `s`. -/
def ofMnemonic? (s : String) : Option Opcode :=
  all.find? (·.mnemonic == s)

theorem mem_all (o : Opcode) : o ∈ all := by
  cases o <;> decide

theorem ofCode?_code (o : Opcode) : ofCode? o.code = some o := by
  cases o <;> decide

/-- Every instruction costs something. -/
theorem cost_pos (o : Opcode) : 0 < o.cost := by
  cases o <;> decide

end Opcode

end CreditMachine
