import CreditMachine.Machine.Exec

/-!
# Instructions

What each instruction does. An instruction is fetched, charged, and refused if
it would change a storage that may only be read; then the buffer is filled with its
operands, these are read from the left, and it is executed.

A call of another contract is executed by a machine of its own, over the same
storage, with the credits that are left. How that machine runs is a parameter
here (`nested`).
-/

namespace CreditMachine

/-- The credits for an argument of a call. -/
def argumentCost : UInt64 := 2

namespace Exec

variable {σ α : Type} (b : Backend σ) (o : Opcode)

/-- `dst = f a b`, on numbers. -/
def arithmetic (f : Word → Word → Exec σ Value) : Exec σ Unit := do
  let a ← destination o
  let v ← source b o
  let w ← source b o
  let x ← int o v
  let y ← int o w
  write b o a (← f x y)

/-- The two values joined, both texts or both blobs. -/
def join (v w : Value) : Except Abort Value :=
  match v, w with
  | .str s, .str t => .ok (.str (s ++ t))
  | .bytes s, .bytes t => .ok (.bytes (s ++ t))
  | .str _, w => .error (mismatch o "Str" w)
  | .bytes _, w => .error (mismatch o "Bytes" w)
  | v, _ => .error (mismatch o "Str or Bytes" v)

/-- The bytes of a text or a blob, or the entries of a container. -/
def measure (v : Value) : Except Abort UInt64 :=
  match v with
  | .str s => .ok (UInt64.ofNat s.utf8ByteSize)
  | .bytes s => .ok (UInt64.ofNat s.length)
  | .array n | .map n => .ok n
  | v => .error (mismatch o "Str, Bytes, Array or Map" v)

/-- Goes on at the instruction `n` of the program `p`. -/
def jump (p : Program) (n : UInt64) : Exec σ Unit := do
  if p.code.size ≤ n.toNat then throw (.invalidJump n p.code.size)
  modify fun m => { m with next := n.toNat }

/-! ### Calls -/

/-- Aborts if no more calls may be nested. -/
def checkDepth : Exec σ Unit := do
  let m ← get
  if maxDepth ≤ m.depth + m.frames.length then throw (.callDepthExceeded maxDepth)

/-- The slot of the stack that the address `a` names, if it and the next `n`
    slots are in the active frame. -/
def window (a : UInt64) (n : UInt64) : Exec σ Nat := do
  match ← resolve a with
  | .stack i =>
    let last := i + n.toNat
    -- The number of a slot is a word. What is beyond the words is refused before
    -- any frame is looked at.
    if ceiling < last then throw (.addressOutOfRange (addSat a n))
    let _ ← stackIndex last (addSat a n)
    stackIndex i a
  | _ => throw (.invalidOperand o.mnemonic 0 "a stack address")

/-- The values of the `n` slots after the slot `i` of the stack. -/
def arguments (i n : Nat) : Exec σ (List Value) := do
  check ((← get).memory.slots (i + 1) stackBase n)

/-- Calls the method `n` of the program `p` with `k` arguments, which are after
    the base `a`. The result goes to the base. -/
def call (p : Program) (a n k : UInt64) : Exec σ Unit := do
  match p.methods[n.toNat]? with
  | none => throw (.undefinedMethod (Entry.index n).text)
  | some d =>
    if k ≠ UInt64.ofNat d.arity.toNat then
      throw (.arityMismatch d.name (UInt64.ofNat d.arity.toNat) k)
    charge .callOverhead (mulSat argumentCost k)
    checkDepth
    let i ← window o a k
    let args ← arguments i k.toNat
    let m ← get
    match m.frames.head? with
    | none => throw .notRunning
    | some f =>
      let base := f.base + f.size
      let memory ← check (m.memory.push base d.frame)
      let memory ← check (Machine.passArgs base 1 args memory)
      modify fun m => { m with
        memory := memory
        frames := ⟨base, d.frame, m.next, some i⟩ :: m.frames
        next := d.entry.toNat }

/-- Executes `x` on the machine `m`, over the same storage, and leaves this
    machine as it is. An abort of `m` is part of the answer. -/
def onMachine (m : Machine) (x : Exec σ α) : Exec σ (Except Abort α × Machine) :=
  ExceptT.mk fun m₀ s =>
    let ((r, m), s) := x m s
    ((.ok (r, m), m₀), s)

/-- Begins an execution. -/
def begin (e : Entry) (args : List Value) (budget : UInt64) : Exec σ Unit :=
  ExceptT.mk fun m s => (m.begin e args budget, s)

/-- Calls the method `n` of the program `p` of the contract `c`, on a machine of its
    own. This machine pays for the call, and aborts if the other one does. -/
def delegate (nested : Exec σ Unit) (c : Address) (p : Program) (n : UInt64) (args : List Value) :
    Exec σ Value := do
  let m ← get
  let callee := (Machine.new c m.constantOnly m.registry (m.depth + m.frames.length)).load p
  let (r, callee) ← onMachine callee do
    begin (.index n) args m.credits.remaining
    nested
  modify fun m =>
    { m with credits := m.credits.absorb callee.credits.used callee.credits.profile }
  check r
  return callee.result.getD .nil

/-- Calls the method `n` of the contract whose address is at the base `a`, with
    `k` arguments, which are after the base. The result goes to the base. -/
def callContract (nested : Exec σ Unit) (a n k : UInt64) : Exec σ Unit := do
  let i ← window o a k
  let c ← address o (← slot i a)
  charge .callOverhead (mulSat argumentCost k)
  checkDepth
  match (← get).registry c with
  | none => throw (.unknownContract c)
  | some p =>
    let args ← arguments i k.toNat
    setSlot i (← delegate nested c p n args) a

/-- Returns from the active frame. The outermost one stays, for its result. -/
def ret : Exec σ Unit := do
  match (← get).frames with
  | [] => throw .notRunning
  | f :: fs =>
    match f.resultAt with
    | none => modify fun m => { m with status := .finished }
    | some i =>
      let v ← slot f.base stackBase
      modify fun m => { m with memory := m.memory.pop f.base, frames := fs }
      setSlot i v stackBase
      modify fun m => { m with next := f.returnTo }

/-! ### Instructions -/

/-- Executes the instruction `o` of the program `p`, with the operands in the buffer. -/
def execute (nested : Exec σ Unit) (p : Program) : Exec σ Unit := do
  match o with
  | .nop => pure ()
  | .copy =>
    let a ← destination o
    write b o a (← source b o)
  | .add => arithmetic b o fun x y => return .int (x + y)
  | .sub => arithmetic b o fun x y => return .int (x - y)
  | .mul => arithmetic b o fun x y => return .int (x * y)
  | .div => arithmetic b o fun x y => do
    if y = 0 then throw .divisionByZero
    return .int (x / y)
  | .mod => arithmetic b o fun x y => do
    if y = 0 then throw .divisionByZero
    return .int (x % y)
  | .and => arithmetic b o fun x y => return .int (x &&& y)
  | .or => arithmetic b o fun x y => return .int (x ||| y)
  | .xor => arithmetic b o fun x y => return .int (x ^^^ y)
  | .not =>
    let a ← destination o
    let x ← int o (← source b o)
    write b o a (.int (~~~x))
  | .eq =>
    let a ← destination o
    let v ← source b o
    let w ← source b o
    write b o a (.ofBool (v = w))
  | .lt => arithmetic b o fun x y => return .ofBool (x < y)
  | .gt => arithmetic b o fun x y => return .ofBool (y < x)
  | .le => arithmetic b o fun x y => return .ofBool (x ≤ y)
  | .ge => arithmetic b o fun x y => return .ofBool (y ≤ x)
  | .concat =>
    let a ← destination o
    let v ← source b o
    let w ← source b o
    write b o a (← check (join o v w))
  | .len =>
    let a ← destination o
    let v ← source b o
    write b o a (.ofWord64 (← check (measure o v)))
  | .jmp => jump p (← immediate o)
  | .jz =>
    let v ← source b o
    let n ← immediate o
    if !v.truthy then jump p n
  | .jnz =>
    let v ← source b o
    let n ← immediate o
    if v.truthy then jump p n
  | .call =>
    let a ← destination o
    let n ← immediate o
    let k ← immediate o
    call o p a n k
  | .xcall =>
    let a ← destination o
    let n ← immediate o
    let k ← immediate o
    callContract o nested a n k
  | .ret => ret
  | .sload =>
    let a ← destination o
    let s ← root o
    let k ← key b o
    match ← container b o s with
    | .array n => if n ≤ k then throw (.indexOutOfBounds k n)
    | .map _ => pure ()
    write b o a ((← load b (.entry s k)).getD .nil)
  | .sstore =>
    let s ← root o
    let k ← key b o
    let v ← source b o
    storeEntry b o s k v
  | .sdel =>
    let s ← root o
    let k ← key b o
    removeEntry b o s k
  | .serase => erase b (← root o)
  | .newmap => newMap b o (← root o)
  | .newarr => newArray b o (← root o)
  | .append =>
    let s ← root o
    let v ← source b o
    append b o s v
  | .deref =>
    let a ← destination o
    match ← source b o with
    | .ref x => write b o a ((← load b x).getD .nil)
    | v => throw (mismatch o "Ref" v)
  | .storeref =>
    let v ← source b o
    let w ← source b o
    match v with
    | .ref (.root s) => storeRoot b o s w
    | .ref (.entry s k) => storeEntry b o s k w
    | v => throw (mismatch o "Ref" v)
  | .find =>
    let a ← destination o
    let v ← source b o
    write b o a (((← search b v).head?.map Value.ref).getD .nil)
  | .present =>
    let a ← destination o
    let s ← root o
    let k ← optionalKey b o
    write b o a (.ofBool (← load b ⟨s, k⟩).isSome)

/-- Fetches, charges and executes one instruction. -/
def step (nested : Exec σ Unit) : Exec σ Unit := do
  let m ← get
  match m.program with
  | none => throw .notRunning
  | some p =>
    match p.code[m.next]? with
    | none => throw (.invalidJump (UInt64.ofNat m.next) p.code.size)
    | some d =>
      modify fun m => { m with offset := m.next, next := m.next + 1 }
      match Opcode.ofCode? d.code with
      | none => throw (.invalidOpcode d.code)
      | some o =>
        charge .opcode o.cost
        if o.mutates then guard o
        fill d.operands
        execute b o nested p

end Exec

end CreditMachine
