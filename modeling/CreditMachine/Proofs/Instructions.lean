import CreditMachine.Proofs.Coupling

/-!
# Instructions of tied executions

Executions of one program over two storages are tied if what they do to storage
is. How much of that has to be shown depends on the coupling:

* `Coupling.Asks`: requests are tied, one by one;
* `Coupling.Writes`: the changes of containers are tied, each as a whole;
* `Coupling.Joins`: what touches storage, credits or another machine is tied.

Each of the first two implies the next (`Coupling.Asks.writes`,
`Coupling.Writes.joins`), and from the last it follows that instructions are tied
(`Coupling.Joins.step`), and then runs, with all the runs nested in them
(`Coupling.Joins.steps`).
-/

namespace CreditMachine.Coupling

variable {σ τ : Type} {C : Coupling σ τ}

open Exec

/-! ### Operands and memory -/

section Memory

/-- Operands are taken from equal buffers. -/
theorem tied_onOperands {α : Type} (f : Operands → α × Operands) :
    C.Tied (onOperands f) (onOperands f) := by
  refine .get fun m q k => ?_
  dsimp only
  refine .bind (.modify (fun _ => rfl) fun h => C.update h _ _ _ _ _ _) fun _ => ?_
  exact .pure _

theorem tied_stackIndex (n : Nat) (a : UInt64) : C.Tied (stackIndex n a) (stackIndex n a) := by
  refine .get fun m q k => ?_
  dsimp only
  cases m.frames.head? with
  | none => exact .throw rfl
  | some f =>
    dsimp only
    split
    · exact .throw rfl
    · exact .pure _

theorem tied_slot (i : Nat) (a : UInt64) : C.Tied (slot i a) (slot i a) :=
  .get fun _ _ _ => .check (.slot _ i a)

theorem tied_setSlot (i : Nat) (v : Value) (a : UInt64) :
    C.Tied (setSlot i v a) (setSlot i v a) := by
  refine .get fun m q k => ?_
  refine .bind (.check (.set _ i v a)) fun k => ?_
  exact .modify (fun _ => rfl) fun h => C.update h _ _ _ _ _ _

theorem tied_arguments (i n : Nat) : C.Tied (arguments i n) (arguments i n) :=
  .get fun _ _ _ => .check (.slots _ (i + 1) stackBase n)

theorem tied_window (o : Opcode) (a n : UInt64) : C.Tied (window o a n) (window o a n) := by
  refine .bind (C.comparison.resolve a) fun r => ?_
  cases r with
  | constant i => exact .throw rfl
  | persistent s => exact .throw rfl
  | stack i =>
    dsimp only
    split
    · exact .throw rfl
    · exact .bind (tied_stackIndex _ _) fun _ => tied_stackIndex i a

theorem tied_checkDepth : C.Tied checkDepth checkDepth := by
  refine .get fun m q k => ?_
  dsimp only
  split
  · exact .throw rfl
  · exact .pure _

theorem tied_jump (p : Program) (n : UInt64) : C.Tied (jump p n) (jump p n) := by
  rw [jump, jump]
  dsimp only
  split
  · exact .throw rfl
  · exact .modify (fun _ => rfl) fun h => C.update h _ _ _ _ _ _

theorem tied_ret : C.Tied ret ret := by
  refine .get fun m q k => ?_
  dsimp only
  cases m.frames with
  | nil => exact .throw rfl
  | cons f fs =>
    dsimp only
    cases f.resultAt with
    | none => exact .modify (fun _ => rfl) fun h => C.update h _ _ _ _ _ _
    | some i =>
      refine .bind (tied_slot f.base stackBase) fun v => ?_
      refine .bind (.modify (fun _ => rfl) fun h => C.update h _ _ _ _ _ _) fun _ => ?_
      refine .bind (tied_setSlot i v stackBase) fun _ => ?_
      exact .modify (fun _ => rfl) fun h => C.update h _ _ _ _ _ _

end Memory

/-! ### Reading -/

/-- What machines do to read storage is tied, the charges included. -/
structure Reads (C : Coupling σ τ) (b : Backend σ) (d : Backend τ) : Prop where
  charge : ∀ c n, C.Tied (charge c n) (charge c n)
  load : ∀ x, C.Tied (load b x) (load d x)
  search : ∀ v, C.Tied (search b v) (search d v)

namespace Reads

variable {b : Backend σ} {d : Backend τ} (h : C.Reads b d)

include h

/-- A method is entered by both machines with the same arguments. -/
theorem call (o : Opcode) (p : Program) (a n k : UInt64) :
    C.Tied (call o p a n k) (call o p a n k) := by
  rw [Exec.call, Exec.call]
  cases p.methods[n.toNat]? with
  | none => exact .throw rfl
  | some d =>
    dsimp only
    split
    · exact .throw rfl
    · refine .bind (h.charge _ _) fun _ => .bind tied_checkDepth fun _ => ?_
      refine .bind (tied_window o a k) fun i => .bind (tied_arguments i _) fun args => ?_
      refine .get fun m q k => ?_
      dsimp only
      cases m.frames.head? with
      | none => exact .throw rfl
      | some f =>
        refine .bind (.check (.push _ _ _)) fun memory => ?_
        refine .bind (.check (.passArgs _ _ _ _)) fun memory => ?_
        exact .modify (fun _ => rfl) fun h => C.update h _ _ _ _ _ _

theorem locals : C.comparison.Locals where
  onOperands := tied_onOperands
  constant i a := .get fun _ _ _ => .check (.constant _ i a)
  slot n a := .bind (tied_stackIndex n a) fun i => tied_slot i a
  setSlot n v a := .bind (tied_stackIndex n a) fun i => tied_setSlot i v a
  jump := tied_jump
  call := h.call

end Reads

/-- What machines do with storage, credits and each other is tied. -/
structure Joins (C : Coupling σ τ) (b : Backend σ) (d : Backend τ) : Prop extends C.Reads b d where
  store : ∀ o s v, C.Tied (do guard o; storeRoot b o s v) (do guard o; storeRoot d o s v)
  mutate : ∀ o l x y p, o.mutates →
    C.Tied (do guard o; fill l; execute b o x p) (do guard o; fill l; execute d o y p)
  delegate : ∀ {x y}, C.Tied x y → ∀ c p n args,
    C.Tied (delegate x c p n args) (delegate y c p n args)

namespace Joins

variable {b : Backend σ} {d : Backend τ} (h : C.Joins b d) (o : Opcode) {x : Exec σ Unit}
  {y : Exec τ Unit} (hx : C.Tied x y) (p : Program)

include h

theorem parts : C.comparison.Parts b d where
  toLocals := h.locals
  load := h.load
  search := h.search
  store := h.store

include hx

/-- Another contract is called by both machines, if what it runs is tied. -/
theorem callContract (a n k : UInt64) :
    C.Tied (callContract o x a n k) (callContract o y a n k) := by
  refine .bind (tied_window o a k) fun i => .bind (tied_slot i a) fun v => ?_
  refine .bind (C.comparison.address o v) fun c => ?_
  refine .bind (h.charge _ _) fun _ => .bind tied_checkDepth fun _ => .get fun m q k' => ?_
  dsimp only
  cases m.registry c with
  | none => exact .throw rfl
  | some p =>
    refine .bind (tied_arguments i _) fun args => ?_
    exact .bind (h.delegate hx c p n args) fun v => tied_setSlot i v a

/-- Instructions that change no containers are tied. -/
theorem execute (ho : o.mutates = false) :
    C.Tied (execute b o x p) (execute d o y p) :=
  h.parts.execute o p ho (fun _ => tied_ret) fun a n k => h.callContract _ hx a n k

/-- A turn of one machine is tied to a turn of the other. -/
theorem step : C.Tied (step b x) (step d y) := by
  refine .get fun m q k => ?_
  dsimp only
  cases m.program with
  | none => exact .throw rfl
  | some p =>
    dsimp only
    cases p.code[m.next]? with
    | none => exact .throw rfl
    | some i =>
      refine .bind (.modify (fun _ => rfl) fun h => C.update h _ _ _ _ _ _) fun _ => ?_
      cases Opcode.ofCode? i.code with
      | none => exact .throw rfl
      | some o =>
        refine .bind (h.charge _ _) fun _ => ?_
        -- Those that mutate are guarded here, the others at their destination.
        by_cases ho : o.mutates
        · rw [if_pos ho, if_pos ho]
          exact h.mutate o _ x y p ho
        · rw [if_neg ho, if_neg ho]
          exact .bind (h.locals.fill _) fun _ => h.execute o hx p (by simpa using ho)

omit hx

/-- Runs are tied. -/
theorem steps (n : Nat) : C.Tied (steps b n) (steps d n) := by
  induction n with
  | zero => exact .pure ()
  | succ n ih =>
    -- The hypothesis is needed twice: for the calls nested in the first instruction,
    -- and for the instructions after it.
    refine .get fun m q k => ?_
    dsimp only
    split
    · exact .bind (.marked (h.step ih)) fun _ => ih
    · exact .pure _

end Joins

/-! ### Containers -/

/-- The changes of containers are tied, each as a whole. -/
structure Writes (C : Coupling σ τ) (b : Backend σ) (d : Backend τ) : Prop extends C.Reads b d where
  guard : ∀ o, C.Tied (guard o) (guard o)
  storeRoot : ∀ o s v, C.Tied (storeRoot b o s v) (storeRoot d o s v)
  storeEntry : ∀ o s k v, C.Tied (storeEntry b o s k v) (storeEntry d o s k v)
  removeEntry : ∀ o s k, C.Tied (removeEntry b o s k) (removeEntry d o s k)
  erase : ∀ s, C.Tied (erase b s) (erase d s)
  newMap : ∀ o s, C.Tied (newMap b o s) (newMap d o s)
  newArray : ∀ o s, C.Tied (newArray b o s) (newArray d o s)
  append : ∀ o s v, C.Tied (append b o s v) (append d o s v)
  delegate : ∀ {x y}, C.Tied x y → ∀ c p n args,
    C.Tied (delegate x c p n args) (delegate y c p n args)

/-- Writes that are tied are changes that may be compared. -/
theorem Writes.changes {b : Backend σ} {d : Backend τ} (h : C.Writes b d) :
    C.comparison.Changes b d where
  toLocals := h.locals
  load := h.load
  search := h.search
  store o s v := .bind (h.guard o) fun _ => h.storeRoot o s v
  guard := h.guard
  storeRoot := h.storeRoot
  storeEntry := h.storeEntry
  removeEntry := h.removeEntry
  erase := h.erase
  newArray := h.newArray
  append := h.append

/-- If writes are tied as well as reads, so are all instructions. -/
theorem Writes.joins {b : Backend σ} {d : Backend τ} (h : C.Writes b d) : C.Joins b d where
  toReads := h.toReads
  store := h.changes.store
  delegate := h.delegate
  mutate o l x y p ho := h.changes.mutate o l x y p ho fun _ s => h.newMap _ s

/-! ### Requests -/

/-- Requests are tied, one by one. -/
structure Asks (C : Coupling σ τ) (b : Backend σ) (d : Backend τ) : Prop where
  ask : ∀ r, C.Tied (ask b r) (ask d r)
  charge : ∀ c n, C.Tied (charge c n) (charge c n)
  guard : ∀ o, C.Tied (guard o) (guard o)
  delegate : ∀ {x y}, C.Tied x y → ∀ c p n args,
    C.Tied (delegate x c p n args) (delegate y c p n args)

namespace Asks

variable {b : Backend σ} {d : Backend τ} (h : C.Asks b d)

include h

theorem asks : C.comparison.Asks b d where
  get hf := .get fun _ _ _ => hf _ _ rfl
  ask := h.ask
  charge := h.charge
  guard := h.guard

theorem reads : C.Reads b d where
  charge := h.charge
  load := h.asks.load
  search := h.asks.search

theorem writes : C.Writes b d where
  toReads := h.reads
  guard := h.guard
  delegate := h.delegate
  storeRoot := h.asks.requests.storeRoot
  storeEntry := h.asks.requests.storeEntry
  removeEntry := h.asks.requests.removeEntry
  erase := h.asks.requests.erase
  newArray := h.asks.requests.newArray
  append := h.asks.requests.append
  newMap := h.asks.newMap

end Asks

end CreditMachine.Coupling
