import CreditMachine.Machine.Run

/-!
# Comparing executions

Many statements about executions, or about two executions of one program, hold of a
whole as soon as they hold of its parts: of what does nothing, of what aborts, and of
what is done in turn (`Comparison`). For such a statement the instructions need to be
gone through only once, and this is done here. What has to be shown of the parts is

* `Comparison.Locals`: what an instruction does with memory and calls of methods;
* `Comparison.Requests`: what is done with storage, one cell at a time.

From these it follows for the changes of containers, each as a whole
(`Comparison.Requests.changes`), for the instructions that make them
(`Comparison.Changes.mutate`), and for all others (`Comparison.Parts.execute`). If single
requests and charges compare, so does what is done with a cell
(`Comparison.Asks.requests`).
-/

namespace CreditMachine

/-! ### Aborts of instructions -/

/-- Whether an abort is brought about by an instruction alone: the store has not
    failed, and the machine has been running. -/
def Abort.isPlain : Abort → Bool
  | .storage _ | .notRunning => false
  | _ => true

/-- An instruction by itself gives no reason to give up an attempt. -/
theorem Abort.isFatal_of_isPlain {e : Abort} (he : e.isPlain) : e.isFatal = false := by
  cases e <;> first | rfl | cases he

/-- If `x` is an abort, then a plain one. -/
def Plain {α : Type} (x : Except Abort α) : Prop := ∀ e, x = .error e → e.isPlain

namespace Plain

variable {α β : Type}

theorem ok (v : α) : Plain (.ok v) := fun _ h => nomatch h

theorem error {e : Abort} (he : e.isPlain) : Plain (.error e : Except Abort α) := by
  rintro _ ⟨⟩
  exact he

theorem bind {x : Except Abort α} {f : α → Except Abort β} (hx : Plain x) (hf : ∀ v, Plain (f v)) :
    Plain (x >>= f) := by
  cases x with
  | ok v => exact hf v
  | error e => exact .error (hx e rfl)

/-- A constant that there is not is a plain abort. -/
theorem constant (k : Memory) (i : Nat) (a : UInt64) : Plain (k.constant i a) := by
  rw [Memory.constant]
  split
  · exact .ok _
  · exact .error rfl

/-- A slot that there is not is a plain abort. -/
theorem slot (k : Memory) (i : Nat) (a : UInt64) : Plain (k.slot i a) := by
  rw [Memory.slot]
  split
  · exact .ok _
  · exact .error rfl

/-- Reading slots in a row fails, if at all, for want of a slot. -/
theorem slots (k : Memory) (i : Nat) (a : UInt64) (n : Nat) : Plain (k.slots i a n) := by
  induction n generalizing i with
  | zero => exact .ok _
  | succ n ih => exact (slot k i a).bind fun v => (ih (i + 1)).bind fun l => .ok (v :: l)

/-- A slot that is not there is not set. -/
theorem set (k : Memory) (i : Nat) (v : Value) (a : UInt64) : Plain (k.set i v a) := by
  rw [Memory.set]
  split
  · exact .ok _
  · exact .error rfl

/-- A frame may be too large for the stack. -/
theorem push (k : Memory) (base size : Nat) : Plain (k.push base size) := by
  unfold Memory.push
  extract_lets _ n
  split
  · exact .error rfl
  · exact .ok _

/-- Passing arguments fails, if at all, for want of a slot. -/
theorem passArgs (base i : Nat) (l : List Value) (k : Memory) :
    Plain (Machine.passArgs base i l k) := by
  induction l generalizing i k with
  | nil => exact .ok k
  | cons v l ih => exact (set k _ v _).bind fun k => ih (i + 1) k

/-- Values that cannot be joined are of the wrong type. -/
theorem join (o : Opcode) (v w : Value) : Plain (Exec.join o v w) := by
  unfold Exec.join
  split
  · exact .ok _
  · exact .ok _
  · exact .error rfl
  · exact .error rfl
  · exact .error rfl

/-- Values that cannot be measured are of the wrong type. -/
theorem measure (o : Opcode) (v : Value) : Plain (Exec.measure o v) := by
  unfold Exec.measure
  split
  · exact .ok _
  · exact .ok _
  · exact .ok _
  · exact .ok _
  · exact .error rfl

/-- An entry may be missing, and that is all that can fail. -/
theorem target (p : Program) (n : Nat) (e : Entry) : Plain (Machine.target p n e) := by
  cases e with
  | method name =>
    rw [Machine.target]
    split
    · exact .ok _
    · exact .error rfl
  | index i =>
    rw [Machine.target]
    split
    · exact .ok _
    · exact .error rfl
  | offset i f => exact .ok _

/-- A charge fails for want of credits only. -/
theorem charge (k : Credits) (c : Category) (n : UInt64) : Plain (k.charge c n) := by
  rw [Credits.charge]
  split
  · exact .error rfl
  · exact .ok _

end Plain

/-! ### Comparisons -/

/-- A statement about two executions that holds of the whole if it holds of the parts. -/
structure Comparison (σ τ : Type) where
  Holds : {α : Type} → Exec σ α → Exec τ α → Prop
  pure : ∀ {α : Type} (v : α), Holds (pure v) (pure v)
  throw : ∀ {α : Type} {e : Abort}, e.isPlain → Holds (throw e : Exec σ α) (throw e : Exec τ α)
  bind : ∀ {α β : Type} {x : Exec σ α} {y : Exec τ α} {f : α → Exec σ β} {g : α → Exec τ β},
    Holds x y → (∀ a, Holds (f a) (g a)) → Holds (x >>= f) (y >>= g)

namespace Comparison

open Exec

variable {σ τ α : Type} {L : Comparison σ τ}

/-- What depends on nothing but a value compares, if it is an abort that an instruction can bring
    about. -/
theorem check {r : Except Abort α} (hr : Plain r) : L.Holds (check r) (check r) := by
  cases r with
  | ok v => exact L.pure v
  | error e => exact L.throw (hr e rfl)

/-- An address is in the same region for both. -/
theorem resolve (a : UInt64) : L.Holds (resolve a) (resolve a) := by
  rw [Exec.resolve, Exec.resolve]
  cases Region.ofAddress? a with
  | some r => exact L.pure r
  | none => exact L.throw rfl

theorem int (o : Opcode) (v : Value) : L.Holds (int o v) (int o v) := by
  cases v with
  | int n => exact L.pure n
  | _ => exact L.throw rfl

/-- Both take the same values for addresses. -/
theorem address (o : Opcode) (v : Value) : L.Holds (address o v) (address o v) := by
  unfold Exec.address
  cases v with
  | bytes s =>
    dsimp only
    cases Address.ofBytes? s with
    | some c => exact L.pure c
    | none => exact L.throw rfl
  | _ => exact L.throw rfl

/-! ### Instructions -/

/-- A container is found by a read of its root. -/
theorem container {b : Backend σ} {d : Backend τ} (hl : ∀ x, L.Holds (load b x) (load d x))
    (o : Opcode) (s : Slot) : L.Holds (container b o s) (container d o s) := by
  refine L.bind (hl (.root s)) fun v? => ?_
  cases v? with
  | none => exact L.throw rfl
  | some v =>
    cases v with
    | array n => exact L.pure _
    | map n => exact L.pure _
    | _ => exact L.throw rfl

/-- What instructions do with operands, memory and calls of methods compares. -/
structure Locals (L : Comparison σ τ) : Prop where
  onOperands : ∀ {α : Type} (f : Operands → α × Operands), L.Holds (onOperands f) (onOperands f)
  constant : ∀ i a, L.Holds (do Exec.check ((← get).memory.constant i a))
    (do Exec.check ((← get).memory.constant i a))
  slot : ∀ n a, L.Holds (do slot (← stackIndex n a) a) (do slot (← stackIndex n a) a)
  setSlot : ∀ n v a, L.Holds (do setSlot (← stackIndex n a) v a) (do setSlot (← stackIndex n a) v a)
  jump : ∀ p n, L.Holds (jump p n) (jump p n)
  call : ∀ o p a n k, L.Holds (call o p a n k) (call o p a n k)

namespace Locals

variable (h : L.Locals) (o : Opcode)

include h

theorem fill (l : Vector Operand 3) : L.Holds (fill l) (fill l) := h.onOperands _

/-- An operand that is to be written to is taken from the buffer, or is none. -/
theorem destination : L.Holds (destination o) (destination o) := by
  refine L.bind (h.onOperands _) fun (i, x) => ?_
  cases x with
  | addr a => exact L.pure a
  | _ => exact L.throw rfl

/-- An operand that is to be a number is taken from the buffer, or is none. -/
theorem immediate : L.Holds (immediate o) (immediate o) := by
  refine L.bind (h.onOperands _) fun (i, x) => ?_
  cases x with
  | imm n => exact L.pure n
  | _ => exact L.throw rfl

/-- An operand that is to be a root is taken from the buffer, or is none. -/
theorem root : L.Holds (root o) (root o) := by
  refine L.bind (h.onOperands _) fun (i, x) => ?_
  cases x with
  | addr a =>
    refine L.bind (resolve a) fun r => ?_
    cases r with
    | persistent s => exact L.pure s
    | _ => exact L.throw rfl
  | _ => exact L.throw rfl

end Locals

/-- What instructions do with operands, memory, storage and calls of methods compares. -/
structure Parts (L : Comparison σ τ) (b : Backend σ) (d : Backend τ) : Prop
    extends L.Locals where
  load : ∀ x, L.Holds (load b x) (load d x)
  search : ∀ v, L.Holds (search b v) (search d v)
  store : ∀ o s v, L.Holds (do guard o; storeRoot b o s v) (do guard o; storeRoot d o s v)

namespace Parts

variable {b : Backend σ} {d : Backend τ} (h : L.Parts b d) (o : Opcode)

include h

/-- A value is read from a constant, a slot of the stack, or a root, depending on its address. -/
theorem read (a : UInt64) : L.Holds (read b a) (read d a) := by
  refine L.bind (resolve a) fun r => ?_
  cases r with
  | constant i => exact h.constant i a
  | stack n => exact h.slot n a
  | persistent s => exact L.bind (h.load (.root s)) fun v? => L.pure _

/-- A value is written to a slot of the stack or to a root. There are no writes to constants. -/
theorem write (a : UInt64) (v : Value) : L.Holds (write b o a v) (write d o a v) := by
  refine L.bind (resolve a) fun r => ?_
  cases r with
  | constant i => exact L.throw rfl
  | stack n => exact h.setSlot n v a
  | persistent s => exact h.store o s v

/-- A value is what an address names, or is given as a number. -/
theorem source : L.Holds (source b o) (source d o) := by
  refine L.bind (h.onOperands _) fun (i, x) => ?_
  cases x with
  | addr a => exact h.read a
  | imm n => exact L.pure _
  | none => exact L.throw rfl

/-- A key is a number that is not too great. -/
theorem key : L.Holds (key b o) (key d o) := by
  refine L.bind (h.source o) fun v => L.bind (int o v) fun n => ?_
  dsimp only
  split
  · exact L.throw rfl
  · exact L.pure _

/-- A key that may be missing is read by both in the same way. -/
theorem optionalKey : L.Holds (optionalKey b o) (optionalKey d o) := by
  refine L.bind (h.onOperands _) fun r => ?_
  split
  · exact L.pure none
  · exact L.bind (h.key o) fun k => L.pure (some k)

/-- Numbers are read, something is done with them, and the result is written: it is enough to
    compare what is done. -/
theorem arithmetic {f : Word → Word → Exec σ Value} {g : Word → Word → Exec τ Value}
    (hf : ∀ x y, L.Holds (f x y) (g x y)) : L.Holds (arithmetic b o f) (arithmetic d o g) := by
  refine L.bind (h.destination o) fun a => ?_
  refine L.bind (h.source o) fun v => L.bind (h.source o) fun w => ?_
  refine L.bind (int o v) fun x => L.bind (int o w) fun y => ?_
  exact L.bind (hf x y) fun v => h.write o a v

/-- Instructions that change no containers compare. Two of them need more: a return, and
    a call of another contract. -/
theorem execute {x : Exec σ Unit} {y : Exec τ Unit} (p : Program) (ho : o.mutates = false)
    (hr : o = .ret → L.Holds ret ret)
    (hx : ∀ a n k, L.Holds (callContract .xcall x a n k) (callContract .xcall y a n k)) :
    L.Holds (execute b o x p) (execute d o y p) := by
  cases o with
  | nop => exact L.pure _
  | copy =>
    refine L.bind (h.destination _) fun a => L.bind (h.source _) fun v => ?_
    exact h.write _ a v
  | add | sub | mul | and | or | xor | lt | gt | le | ge =>
    exact h.arithmetic _ fun _ _ => L.pure _
  | div | mod =>
    refine h.arithmetic _ fun x y => ?_
    split
    · exact L.throw rfl
    · exact L.pure _
  | not =>
    refine L.bind (h.destination _) fun a => L.bind (h.source _) fun v => ?_
    exact L.bind (int _ v) fun x => h.write _ a _
  | eq =>
    refine L.bind (h.destination _) fun a => ?_
    exact L.bind (h.source _) fun v => L.bind (h.source _) fun w => h.write _ a _
  | concat =>
    refine L.bind (h.destination _) fun a => L.bind (h.source _) fun v => ?_
    refine L.bind (h.source _) fun w => L.bind (check (.join _ v w)) fun v => ?_
    exact h.write _ a v
  | len =>
    refine L.bind (h.destination _) fun a => L.bind (h.source _) fun v => ?_
    exact L.bind (check (.measure _ v)) fun n => h.write _ a _
  | jmp => exact L.bind (h.immediate _) fun n => h.jump p n
  | jz | jnz =>
    refine L.bind (h.source _) fun v => L.bind (h.immediate _) fun n => ?_
    split
    · exact h.jump p n
    · exact L.pure _
  | call =>
    refine L.bind (h.destination _) fun a => L.bind (h.immediate _) fun n => ?_
    exact L.bind (h.immediate _) fun k => h.call _ p a n k
  | xcall =>
    refine L.bind (h.destination _) fun a => L.bind (h.immediate _) fun n => ?_
    exact L.bind (h.immediate _) fun k => hx a n k
  | ret => exact hr rfl
  | sload =>
    refine L.bind (h.destination _) fun a => L.bind (h.root _) fun s => ?_
    refine L.bind (h.key _) fun k => L.bind (container h.load _ s) fun c => ?_
    -- What is left after the index has been checked.
    have hl : L.Holds (do Exec.write b .sload a ((← Exec.load b (.entry s k)).getD .nil))
        (do Exec.write d .sload a ((← Exec.load d (.entry s k)).getD .nil)) :=
      L.bind (h.load _) fun v? => h.write _ a _
    cases c with
    | array n =>
      dsimp only
      split
      · exact L.throw rfl
      · exact hl
    | map n => exact hl
  | deref =>
    refine L.bind (h.destination _) fun a => L.bind (h.source _) fun v => ?_
    cases v with
    | ref c => exact L.bind (h.load c) fun v? => h.write _ a _
    | _ => exact L.throw rfl
  | find =>
    refine L.bind (h.destination _) fun a => L.bind (h.source _) fun v => ?_
    exact L.bind (h.search v) fun cs => h.write _ a _
  | present =>
    refine L.bind (h.destination _) fun a => L.bind (h.root _) fun s => ?_
    refine L.bind (h.optionalKey _) fun k => L.bind (h.load _) fun v? => ?_
    exact h.write _ a _
  | sstore | sdel | serase | newmap | newarr | append | storeref => cases ho

end Parts

/-! ### Containers -/

/-- The changes of containers compare, each as a whole. A new map is left out. -/
structure Changes (L : Comparison σ τ) (b : Backend σ) (d : Backend τ) : Prop
    extends L.Parts b d where
  guard : ∀ o, L.Holds (guard o) (guard o)
  storeRoot : ∀ o s v, L.Holds (storeRoot b o s v) (storeRoot d o s v)
  storeEntry : ∀ o s k v, L.Holds (storeEntry b o s k v) (storeEntry d o s k v)
  removeEntry : ∀ o s k, L.Holds (removeEntry b o s k) (removeEntry d o s k)
  erase : ∀ s, L.Holds (erase b s) (erase d s)
  newArray : ∀ o s, L.Holds (newArray b o s) (newArray d o s)
  append : ∀ o s v, L.Holds (append b o s v) (append d o s v)

/-- Instructions that change containers compare. A new map needs more. -/
theorem Changes.mutate {b : Backend σ} {d : Backend τ} (h : L.Changes b d) (o : Opcode)
    (l : Vector Operand 3) (x : Exec σ Unit) (y : Exec τ Unit) (p : Program) (ho : o.mutates)
    (hn : o = .newmap → ∀ s, L.Holds (newMap b .newmap s) (newMap d .newmap s)) :
    L.Holds (do Exec.guard o; Exec.fill l; execute b o x p)
      (do Exec.guard o; Exec.fill l; execute d o y p) := by
  refine L.bind (h.guard o) fun _ => L.bind (h.fill l) fun _ => ?_
  -- Operands are taken in the order that the instruction takes them in.
  cases o with
  | sstore =>
    refine L.bind (h.root _) fun s => L.bind (h.key _) fun k => ?_
    exact L.bind (h.source _) fun v => h.storeEntry _ s k v
  | sdel =>
    refine L.bind (h.root _) fun s => L.bind (h.key _) fun k => ?_
    exact h.removeEntry _ s k
  | serase => exact L.bind (h.root _) fun s => h.erase s
  | newmap => exact L.bind (h.root _) fun s => hn rfl s
  | newarr => exact L.bind (h.root _) fun s => h.newArray _ s
  | append =>
    refine L.bind (h.root _) fun s => L.bind (h.source _) fun v => ?_
    exact h.append _ s v
  | storeref =>
    refine L.bind (h.source _) fun v => L.bind (h.source _) fun w => ?_
    cases v with
    | ref c =>
      obtain ⟨s, k⟩ := c
      cases k with
      | none => exact h.storeRoot _ s w
      | some k => exact h.storeEntry _ s k w
    | _ => exact L.throw rfl
  | _ => cases ho

/-- What is done with storage compares, one cell at a time. -/
structure Requests (L : Comparison σ τ) (b : Backend σ) (d : Backend τ) : Prop where
  guard : ∀ o, L.Holds (guard o) (guard o)
  load : ∀ x, L.Holds (load b x) (load d x)
  search : ∀ v, L.Holds (search b v) (search d v)
  store : ∀ x v, L.Holds (store b x v) (store d x v)
  unstore : ∀ s k, L.Holds (unstore b s k) (unstore d s k)
  erase : ∀ s, L.Holds (erase b s) (erase d s)

namespace Requests

variable {b : Backend σ} {d : Backend τ} (h : L.Requests b d) (o : Opcode) (s : Slot)

include h

/-- A root is written after it has been looked at, unless it would be a container. -/
theorem storeRoot (v : Value) : L.Holds (storeRoot b o s v) (storeRoot d o s v) := by
  rw [Exec.storeRoot, Exec.storeRoot]
  dsimp only
  split
  · exact L.throw rfl
  · refine L.bind (h.load _) fun v? => ?_
    cases v? with
    | none => exact h.store _ v
    | some w =>
      dsimp only
      split
      · exact L.throw rfl
      · exact h.store _ v

/-- An entry is written, and then its root, if the container grows. Each is a cell of its own. -/
theorem storeEntry (k : Key) (v : Value) :
    L.Holds (storeEntry b o s k v) (storeEntry d o s k v) := by
  refine L.bind (container h.load o s) fun c => ?_
  cases c with
  | map n =>
    refine L.bind (h.load _) fun old => L.bind (h.store _ v) fun _ => ?_
    split
    · exact h.store _ _
    · exact L.pure _
  | array n =>
    dsimp only
    split
    · exact L.throw rfl
    · refine L.bind (h.store _ v) fun _ => ?_
      split
      · exact h.store _ _
      · exact L.pure _

/-- An entry is removed, and then its root is written. -/
theorem removeEntry (k : Key) : L.Holds (removeEntry b o s k) (removeEntry d o s k) := by
  refine L.bind (container h.load o s) fun c => ?_
  cases c with
  | map n =>
    refine L.bind (h.load _) fun v? => ?_
    split
    · exact L.bind (h.unstore s k) fun _ => h.store _ _
    · exact L.pure _
  | array n =>
    dsimp only
    split
    · exact L.throw rfl
    · exact L.bind (h.unstore s k) fun _ => h.store _ _

/-- A new array is a root that is written if it is absent. -/
theorem newArray : L.Holds (newArray b o s) (newArray d o s) := by
  refine L.bind (h.load _) fun v? => ?_
  cases v? with
  | none => exact h.store _ _
  | some v =>
    cases v with
    | array n => exact L.pure _
    | _ => exact L.throw rfl

/-- An element is written, and then its root. -/
theorem append (v : Value) : L.Holds (append b o s v) (append d o s v) := by
  refine L.bind (h.load _) fun v? => ?_
  cases v? with
  | none => exact L.throw rfl
  | some w =>
    cases w with
    | array n => exact L.bind (h.store _ v) fun _ => h.store _ _
    | _ => exact L.throw rfl

/-- All changes of containers are made of requests for single cells. -/
theorem changes (hl : L.Locals) : L.Changes b d where
  toLocals := hl
  load := h.load
  search := h.search
  store o s v := L.bind (h.guard o) fun _ => h.storeRoot o s v
  guard := h.guard
  storeRoot := h.storeRoot
  storeEntry := h.storeEntry
  removeEntry := h.removeEntry
  erase := h.erase
  newArray := h.newArray
  append := h.append

end Requests

/-- Storage is read in parts that compare: requests for the contract of the machine, and
    charges. -/
structure Looks (L : Comparison σ τ) (b : Backend σ) (d : Backend τ) : Prop where
  get : ∀ {α : Type} {f : Machine → Exec σ α} {g : Machine → Exec τ α},
    (∀ m k : Machine, m.contract = k.contract → L.Holds (f m) (g k)) →
    L.Holds (do f (← get)) (do g (← get))
  ask : ∀ r, r.mutates = false → L.Holds (ask b r) (ask d r)
  charge : ∀ c n, L.Holds (charge c n) (charge c n)

namespace Looks

variable {b : Backend σ} {d : Backend τ} (h : L.Looks b d)

include h

theorem load (x : Cell) : L.Holds (load b x) (load d x) := by
  refine h.get fun m k hc => ?_
  rw [hc]
  refine L.bind (h.ask _ rfl) fun v? => ?_
  cases v? with
  | none => exact L.pure none
  | some v => exact L.bind (h.charge _ _) fun _ => L.pure (some v)

theorem search (v : Value) : L.Holds (search b v) (search d v) := by
  refine h.get fun m k hc => ?_
  rw [hc]
  exact L.bind (h.ask _ rfl) fun l => L.bind (h.charge _ _) fun _ => L.pure l

end Looks

/-- What is done with storage is made of parts that compare: requests for the contract of
    the machine, charges and guards. -/
structure Asks (L : Comparison σ τ) (b : Backend σ) (d : Backend τ) : Prop where
  get : ∀ {α : Type} {f : Machine → Exec σ α} {g : Machine → Exec τ α},
    (∀ m k : Machine, m.contract = k.contract → L.Holds (f m) (g k)) →
    L.Holds (do f (← get)) (do g (← get))
  ask : ∀ r, L.Holds (ask b r) (ask d r)
  charge : ∀ c n, L.Holds (charge c n) (charge c n)
  guard : ∀ o, L.Holds (guard o) (guard o)

namespace Asks

variable {b : Backend σ} {d : Backend τ} (h : L.Asks b d)

include h

/-- Reading is a part of all that is done with storage. -/
theorem looks : L.Looks b d where
  get := h.get
  ask r _ := h.ask r
  charge := h.charge

theorem load (x : Cell) : L.Holds (load b x) (load d x) := h.looks.load x

theorem search (v : Value) : L.Holds (search b v) (search d v) := h.looks.search v

/-- All that is done with a cell is a request for the contract of the machine, with charges around
    it. -/
theorem requests : L.Requests b d where
  guard := h.guard
  load := h.load
  search := h.search
  store _ _ := L.bind (h.charge _ _) fun _ => h.get fun _ _ hc => hc ▸ h.ask _
  unstore _ _ := h.get fun _ _ hc => hc ▸ h.ask _
  erase _ := h.get fun _ _ hc => hc ▸ h.ask _

/-- A new map is charged for, allocated, and looked at once more. -/
theorem newMap (o : Opcode) (s : Slot) : L.Holds (newMap b o s) (newMap d o s) := by
  refine L.bind (h.charge _ _) fun _ => h.get fun m k hc => ?_
  rw [hc]
  refine L.bind (h.ask _) fun _ => L.bind (h.load _) fun v? => ?_
  cases v? with
  | none => exact L.throw rfl
  | some v =>
    cases v with
    | map n => exact L.pure _
    | _ => exact L.throw rfl

end Asks

end Comparison

end CreditMachine
