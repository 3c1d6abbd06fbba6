import CreditMachine.Machine.State

/-!
# Execution with effects

What a machine does while it executes an instruction: it changes itself, makes
requests to storage, and may abort. An abort undoes nothing: the machine and the
storage stay as they were then.

Credits are charged here: before a write to storage for the bytes to be written,
and after a read for the bytes that were read.
-/

namespace CreditMachine

/-- What a machine does over a storage with the states `σ`. -/
abbrev Exec (σ : Type) := ExceptT Abort (StateT Machine (StateM σ))

namespace Exec

variable {σ α : Type} (b : Backend σ) (o : Opcode)

/-- Makes a request to storage. -/
def ask (r : Request) : Exec σ r.Answer :=
  ExceptT.mk fun m s =>
    match b r s with
    | (.ok a, s) => ((.ok a, m), s)
    | (.error e, s) => ((.error (.ofStorage e), m), s)

/-- Goes on with the value of `x`, or aborts. -/
def check (x : Except Abort α) : Exec σ α :=
  ExceptT.mk (pure x)

/-- Spends `n` credits on `c`. -/
def charge (c : Category) (n : UInt64) : Exec σ Unit := do
  let k ← check ((← get).credits.charge c n)
  modify fun m => { m with credits := k }

/-- Spends a credit on `c` for each byte of `v`. -/
def chargeBytes (c : Category) (v : Value) : Exec σ Unit :=
  charge c (clamp v.size)

/-- Aborts if storage may only be read. -/
def guard : Exec σ Unit := do
  if (← get).constantOnly then throw (.readOnlyViolation o.mnemonic)

/-- The abort of the instruction `o`, which expects something else than `v`. -/
def mismatch (expected : String) (v : Value) : Abort :=
  .typeMismatch o.mnemonic expected v.type

/-- The abort of the instruction `o`, which expects something at an absent root. -/
def absent (expected : String) : Abort :=
  .typeMismatch o.mnemonic expected "absent"

/-! ### Storage -/

/-- Reads a cell of the contract. -/
def load (x : Cell) : Exec σ (Option Value) := do
  let v? : Option Value ← ask b (.read (← get).contract x)
  match v? with
  | some v => chargeBytes .storageRead v
  | none => pure ()
  return v?

/-- Writes a cell of the contract. -/
def store (x : Cell) (v : Value) : Exec σ Unit := do
  chargeBytes .storageWrite v
  ask b (.write (← get).contract x v)

/-- Removes an entry of the contract. -/
def unstore (s : Slot) (k : Key) : Exec σ Unit := do
  ask b (.eraseEntry (← get).contract s k)

/-- Writes a value to a root. Containers are made and removed by instructions of
    their own. -/
def storeRoot (s : Slot) (v : Value) : Exec σ Unit := do
  if v.isContainer then throw (mismatch o "non-container value" v)
  match ← load b (.root s) with
  | some w => if w.isContainer then throw (mismatch o "non-container root" w)
  | none => pure ()
  store b (.root s) v

/-- A container, with the number of its entries. -/
inductive Container
  | array (n : UInt64)
  | map (n : UInt64)

/-- The container at the slot `s`. -/
def container (s : Slot) : Exec σ Container := do
  match ← load b (.root s) with
  | some (.array n) => return .array n
  | some (.map n) => return .map n
  | some v => throw (mismatch o "Array or Map" v)
  | none => throw (absent o "Array or Map")

/-- Writes the entry `k` of the container at the slot `s`. An array grows only
    at its end. -/
def storeEntry (s : Slot) (k : Key) (v : Value) : Exec σ Unit := do
  match ← container b o s with
  | .map n =>
    let old ← load b (.entry s k)
    store b (.entry s k) v
    if old.isNone then store b (.root s) (.map (addSat n 1))
  | .array n =>
    if n < k then throw (.indexOutOfBounds k n)
    store b (.entry s k) v
    if k = n then store b (.root s) (.array (addSat n 1))

/-- Removes the entry `k` of the container at the slot `s`. -/
def removeEntry (s : Slot) (k : Key) : Exec σ Unit := do
  match ← container b o s with
  | .map n =>
    if (← load b (.entry s k)).isSome then
      unstore b s k
      store b (.root s) (.map (if n = 0 then 0 else n - 1))
  -- An array stays dense: only its last element can be removed.
  | .array n =>
    if n = 0 ∨ k ≠ n - 1 then throw (.indexOutOfBounds k n)
    unstore b s k
    store b (.root s) (.array k)

/-- Removes the slot `s`. -/
def erase (s : Slot) : Exec σ Unit := do
  ask b (.erase (← get).contract s)

/-- Makes the absent root of the slot `s` an empty map. -/
def newMap (s : Slot) : Exec σ Unit := do
  chargeBytes .storageWrite (.map 0)
  let _ : Bool ← ask b (.allocate (← get).contract s)
  match ← load b (.root s) with
  | some (.map _) => pure ()
  | some v => throw (mismatch o "Map" v)
  | none => throw (absent o "Map")

/-- Makes the absent root of the slot `s` an empty array. -/
def newArray (s : Slot) : Exec σ Unit := do
  match ← load b (.root s) with
  | none => store b (.root s) (.array 0)
  | some (.array _) => pure ()
  | some v => throw (mismatch o "Array" v)

/-- Writes `v` to the end of the array at the slot `s`. -/
def append (s : Slot) (v : Value) : Exec σ Unit := do
  match ← load b (.root s) with
  | some (.array n) =>
    store b (.entry s n) v
    store b (.root s) (.array (addSat n 1))
  | some w => throw (mismatch o "Array" w)
  | none => throw (absent o "Array")

/-- The cells of the contract that hold `v`, the one written last first. -/
def search (v : Value) : Exec σ (List Cell) := do
  let l : List Cell ← ask b (.holders (← get).contract v)
  chargeBytes .storageRead v
  return l

/-! ### Memory -/

/-- What the address `a` names. -/
def resolve (a : UInt64) : Exec σ Region :=
  match Region.ofAddress? a with
  | some r => pure r
  | none => throw (.addressOutOfRange a)

/-- The slot of the stack that is the slot `n` of the active frame, named by the
    address `a`. -/
def stackIndex (n : Nat) (a : UInt64) : Exec σ Nat := do
  match (← get).frames.head? with
  | none => throw .notRunning
  | some f => if f.size ≤ n then throw (.addressOutOfRange a) else return f.base + n

/-- The value of the slot `i` of the stack, named by the address `a`. -/
def slot (i : Nat) (a : UInt64) : Exec σ Value := do
  check ((← get).memory.slot i a)

/-- Sets the slot `i` of the stack, named by the address `a`. -/
def setSlot (i : Nat) (v : Value) (a : UInt64) : Exec σ Unit := do
  let k ← check ((← get).memory.set i v a)
  modify fun m => { m with memory := k }

/-- The value at the address `a`. -/
def read (a : UInt64) : Exec σ Value := do
  match ← resolve a with
  | .constant i => check ((← get).memory.constant i a)
  | .stack n => slot (← stackIndex n a) a
  | .persistent s => return (← load b (.root s)).getD .nil

/-- Writes `v` to the address `a`. -/
def write (a : UInt64) (v : Value) : Exec σ Unit := do
  match ← resolve a with
  | .constant _ => throw (.constantWrite a)
  | .stack n => setSlot (← stackIndex n a) v a
  | .persistent s =>
    guard o
    storeRoot b o s v

/-! ### Operands -/

/-- Does something with the buffer of operands. -/
def onOperands (f : Operands → α × Operands) : Exec σ α := do
  let (a, x) := f (← get).operands
  modify fun m => { m with operands := x }
  return a

/-- Fills the buffer with the operands of an instruction. -/
def fill (l : Vector Operand 3) : Exec σ Unit :=
  onOperands fun _ => ((), .of l)

/-- The operand `i` is not as expected. -/
def misplaced (i : Nat) (expected : String) : Exec σ α :=
  throw (.invalidOperand o.mnemonic i expected)

/-- The next operand as an address to write to. -/
def destination : Exec σ UInt64 := do
  match ← onOperands Operands.next with
  | (_, .addr a) => return a
  | (i, _) => misplaced o i "an address"

/-- The value of the next operand. -/
def source : Exec σ Value := do
  match ← onOperands Operands.next with
  | (_, .addr a) => read b a
  | (_, .imm n) => return .ofWord64 n
  | (i, .none) => misplaced o i "an address or immediate"

/-- The next operand as a number. -/
def immediate : Exec σ UInt64 := do
  match ← onOperands Operands.next with
  | (_, .imm n) => return n
  | (i, _) => misplaced o i "an immediate"

/-- The next operand as the slot of a root. -/
def root : Exec σ Slot := do
  match ← onOperands Operands.next with
  | (i, .addr a) =>
    match ← resolve a with
    | .persistent s => return s
    | _ => misplaced o i "a persistent address"
  | (i, _) => misplaced o i "a persistent address"

/-- The value `v` as a number. -/
def int (v : Value) : Exec σ Word :=
  match v with
  | .int n => pure n
  | v => throw (mismatch o "Int" v)

/-- The value `v` as the address of a contract. -/
def address (v : Value) : Exec σ Address :=
  match v with
  | .bytes s =>
    match Address.ofBytes? s with
    | some c => pure c
    | none => throw (.typeMismatch o.mnemonic "32-byte contract address" "Bytes")
  | v => throw (mismatch o "Bytes" v)

/-- The value of the next operand as a key. -/
def key : Exec σ Key := do
  let n ← int o (← source b o)
  if ceiling < n.toNat then throw (.typeMismatch o.mnemonic "64-bit key" "Int")
  return UInt64.ofNat n.toNat

/-- The value of the next operand as a key, unless it is none. -/
def optionalKey : Exec σ (Option Key) := do
  if ← onOperands Operands.skip then return none
  some <$> key b o

end Exec

end CreditMachine
