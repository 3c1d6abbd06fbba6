import CreditMachine.Cell

/-!
# The address space

An address is a 64-bit word. Three stretches of the address space are in use:
the constants of a program, the slots of the active stack frame, and the roots
of the contract's storage.

    [0,    2^32)   constants
    [2^32, 2^33)   stack slots
    [2^63, 2^64)   roots

`Region.ofAddress?` tells what an address names, and `Region.address` is its
inverse (`address_of_ofAddress?`).
-/

namespace CreditMachine

/-- The first address of the stack. -/
def stackBase : UInt64 := 0x100000000

/-- The first address after the stack. -/
def stackEnd : UInt64 := 0x200000000

/-- The first address of storage. -/
def storageBase : UInt64 := 0x8000000000000000

/-- What an address names. -/
inductive Region
  /-- A constant of the program. -/
  | constant (n : Nat)
  /-- A slot of the active stack frame. -/
  | stack (n : Nat)
  /-- The root of a slot in storage. -/
  | persistent (s : Slot)
deriving DecidableEq

namespace Region

/-- What the address `a` names, if anything. -/
def ofAddress? (a : UInt64) : Option Region :=
  if storageBase ≤ a then some (.persistent (a - storageBase))
  else if a < stackBase then some (.constant a.toNat)
  else if stackBase ≤ a ∧ a < stackEnd then some (.stack (a - stackBase).toNat)
  else none

/-- The address of a region. -/
def address : Region → UInt64
  | .constant n => UInt64.ofNat n
  | .stack n => stackBase + UInt64.ofNat n
  | .persistent s => storageBase + s

theorem address_of_ofAddress? {a : UInt64} {r : Region} (h : ofAddress? a = some r) :
    r.address = a := by
  have add_sub (b : UInt64) : b + (a - b) = a := by rw [UInt64.add_comm, UInt64.sub_add_cancel]
  unfold ofAddress? at h
  split at h
  · obtain rfl := Option.some.inj h
    exact add_sub _
  split at h
  · obtain rfl := Option.some.inj h
    exact UInt64.ofNat_toNat
  split at h
  · obtain rfl := Option.some.inj h
    rw [address, UInt64.ofNat_toNat, add_sub]
  · cases h

end Region

end CreditMachine
