import CreditMachine.Storage.Request
import CreditMachine.Text.Cut

/-!
# Aborts

Why a machine stops before it returns. Each cause has a stable number and a
text. What a caller gets to see of an abort is a *report*, whose text is cut to
a limit.
-/

namespace CreditMachine

/-- Why a machine stops. -/
inductive Abort
  /-- A charge does not fit into the credits that are left. -/
  | outOfCredits (needed remaining budget : UInt64)
  /-- The code of an instruction is unknown. -/
  | invalidOpcode (code : UInt8)
  /-- An address names nothing. -/
  | addressOutOfRange (address : UInt64)
  /-- A constant would be overwritten. -/
  | constantWrite (address : UInt64)
  /-- A value has the wrong type. -/
  | typeMismatch (instruction expected actual : String)
  /-- An operand has the wrong kind. -/
  | invalidOperand (instruction : String) (index : Nat) (expected : String)
  | undefinedMethod (method : String)
  | arityMismatch (method : String) (expected actual : UInt64)
  | unknownContract (contract : Address)
  /-- Execution would go on outside the code. -/
  | invalidJump (target : UInt64) (length : Nat)
  | divisionByZero
  | callDepthExceeded (limit : Nat)
  | stackOverflow (needed available : Nat)
  | indexOutOfBounds (index length : UInt64)
  /-- An execution that may only read would change storage. -/
  | readOnlyViolation (instruction : String)
  /-- The machine has not been started, or has stopped. -/
  | notRunning
  | storage (e : StorageError)
  | decode (e : DecodeError)
deriving DecidableEq

namespace Abort

open Text (decimal)

/-- The abort that an error of storage causes. -/
def ofStorage : StorageError → Abort
  | .readOnly operation => .readOnlyViolation operation
  | e => .storage e

/-- The number of a cause. -/
def code : Abort → Nat
  | .outOfCredits .. => 1
  | .invalidOpcode .. => 2
  | .addressOutOfRange .. => 3
  | .constantWrite .. => 4
  | .typeMismatch .. => 5
  | .invalidOperand .. => 6
  | .undefinedMethod .. => 7
  | .arityMismatch .. => 8
  | .unknownContract .. => 9
  | .invalidJump .. => 10
  | .divisionByZero => 11
  | .callDepthExceeded .. => 12
  | .stackOverflow .. => 13
  | .indexOutOfBounds .. => 14
  | .readOnlyViolation .. => 15
  | .notRunning => 16
  | .storage .. => 17
  | .decode .. => 18

/-- The address that a cause is about, if any. -/
def address? : Abort → Option UInt64
  | .addressOutOfRange a | .constantWrite a => some a
  | _ => none

/-- Whether a cause ends the whole execution, nested ones and all: the store has
    failed, not the contract. -/
def isFatal : Abort → Bool
  | .storage e => e.isFatal
  | _ => false

/-- The code `n`, in two hexadecimal digits. -/
def hexCode (n : UInt8) : String := "0x" ++ Hex.ofBytes [n]

/-- The address `a` in hexadecimal. -/
def hexAddress (a : UInt64) : String := "0x" ++ Hex.ofNat a.toNat

def message : Abort → String
  | .outOfCredits needed remaining budget =>
    "out of credits: needed " ++ decimal needed ++ " with " ++ decimal remaining ++ " of " ++
      decimal budget ++ " remaining"
  | .invalidOpcode code => "invalid opcode " ++ hexCode code
  | .addressOutOfRange a => "address " ++ hexAddress a ++ " out of range"
  | .constantWrite a => "constant at " ++ hexAddress a ++ " is read-only"
  | .typeMismatch instruction expected actual =>
    instruction ++ " expected " ++ expected ++ " but got " ++ actual
  | .invalidOperand instruction index expected =>
    instruction ++ " operand " ++ index.repr ++ " must be " ++ expected
  | .undefinedMethod method => "undefined method " ++ method
  | .arityMismatch method expected actual =>
    "method " ++ method ++ " takes " ++ decimal expected ++ " arguments, got " ++ decimal actual
  | .unknownContract contract => "unknown contract " ++ contract.text
  | .invalidJump target length =>
    "jump target " ++ decimal target ++ " outside code of length " ++ length.repr
  | .divisionByZero => "division by zero"
  | .callDepthExceeded limit => "call depth limit " ++ limit.repr ++ " exceeded"
  | .stackOverflow needed available =>
    "stack overflow: " ++ needed.repr ++ " slots needed, " ++ available.repr ++ " available"
  | .indexOutOfBounds index length =>
    "index " ++ decimal index ++ " out of bounds for length " ++ decimal length
  | .readOnlyViolation instruction => "read-only execution rejected " ++ instruction
  | .notRunning => "interpreter is not running"
  | .storage e => "storage: " ++ e.message
  | .decode e => "decode: " ++ e.message

end Abort

/-- What a caller gets to see of an abort. -/
structure Report where
  /-- The number of the cause. -/
  code : Nat
  /-- The address that the cause is about. -/
  address : Option UInt64
  /-- The index of the instruction that failed. -/
  offset : Nat
  /-- Its source line, 0 if it is not known. -/
  line : UInt32
  message : String
deriving DecidableEq

/-- The report of an abort at the instruction `offset`, on a source line, with a
    text of at most `limit` bytes. -/
def Abort.report (e : Abort) (offset : Nat) (line : UInt32) (limit : Nat) : Report :=
  ⟨e.code, e.address?, offset, line, Text.cut limit e.message⟩

end CreditMachine
