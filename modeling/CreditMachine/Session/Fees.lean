import CreditMachine.Storage.Meter

/-!
# Fees

A fee is the price of the credits and the storage traffic of a call. It stops at
the greatest 64-bit word.
-/

namespace CreditMachine

/-- The prices that make up a fee. -/
structure Fees where
  /-- For a credit. -/
  credit : UInt64
  /-- For a byte read from storage. -/
  readByte : UInt64
  /-- For a byte written to storage. -/
  writeByte : UInt64
  /-- For a storage read. -/
  read : UInt64
  /-- For a storage write. -/
  write : UInt64
deriving DecidableEq

namespace Fees

/-- The usual prices. -/
def usual : Fees := ⟨1, 1, 10, 5, 50⟩

/-- The fee of a call. -/
def price (f : Fees) (credits : UInt64) (u : Usage) : UInt64 :=
  [mulSat credits f.credit, mulSat u.bytesRead f.readByte, mulSat u.bytesWritten f.writeByte,
    mulSat u.reads f.read, mulSat u.writes f.write].foldl addSat 0

end Fees

end CreditMachine
