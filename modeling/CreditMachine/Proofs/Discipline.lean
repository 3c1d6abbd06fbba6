import CreditMachine.Proofs.Turns

/-!
# Disciplines

A *discipline* says how executions may change a machine and a storage: what holds
between the start and the end of those that go on, and of those that abort
(`Discipline`). An execution that is made of parts which keep to it does so as well
(`Discipline.Kept.bind`). The discipline of `D` is followed by whole runs, with the runs
nested in them, if it is followed by what instructions are made of
(`Discipline.Rules.run`).

Most disciplines are about credits and storage only. Such a *calm* one has nothing to
say about memory and frames, and there is little to show for it
(`Discipline.Calm.rules`).
-/

namespace CreditMachine

/-- Whether some instruction of the program `p` is an `o`. -/
def Program.Has (p : Program) (o : Opcode) : Prop :=
  ∃ i ∈ p.code, Opcode.ofCode? i.code = some o

instance (p : Program) (o : Opcode) : Decidable (p.Has o) :=
  inferInstanceAs (Decidable (∃ i ∈ p.code, Opcode.ofCode? i.code = some o))

/-- How executions may change a machine and a storage. -/
structure Discipline (σ : Type) where
  /-- What holds of executions that go on. -/
  Goes : Machine → σ → Machine → σ → Prop
  /-- What holds of executions that abort. -/
  Stops : Machine → σ → Machine → σ → Prop
  refl : ∀ m s, Goes m s m s
  trans : ∀ {m s k t m' s'}, Goes m s k t → Goes k t m' s' → Goes m s m' s'
  stops : ∀ {m s k t}, Goes m s k t → Stops m s k t
  after : ∀ {m s k t m' s'}, Goes m s k t → Stops k t m' s' → Stops m s m' s'

namespace Discipline

open Exec

variable {σ α β : Type} (D : Discipline σ)

/-- An execution that began with `m` and `s` has ended as it may. -/
inductive Ends (m : Machine) (s : σ) : (Except Abort α × Machine) × σ → Prop
  | ok {v k t} : D.Goes m s k t → Ends m s ((.ok v, k), t)
  | error {e k t} : D.Stops m s k t → Ends m s ((.error e, k), t)

/-- An execution keeps to the discipline. -/
def Kept (x : Exec σ α) : Prop := ∀ m s, D.Ends m s (x m s)

variable {D}

/-- What goes on as the discipline says may be followed by what keeps it. -/
theorem Ends.bind {x : Exec σ α} {f : α → Exec σ β} {m : Machine} {s : σ}
    (hx : D.Ends m s (x m s)) (hf : ∀ v k t, D.Goes m s k t → D.Ends k t (f v k t)) :
    D.Ends m s ((x >>= f) m s) := by
  rw [bind_apply]
  generalize x m s = a at hx
  cases hx with
  | error h => exact .error h
  | @ok v k t h =>
    have hv := hf v k t h
    dsimp only
    generalize f v k t = a at hv
    cases hv with
    | ok h' => exact .ok (D.trans h h')
    | error h' => exact .error (D.after h h')

/-- What holds however an execution has ended. -/
theorem Ends.stopped {m : Machine} {s : σ} {a : (Except Abort α × Machine) × σ}
    (h : D.Ends m s a) : D.Stops m s a.1.2 a.2 := by
  cases h with
  | ok h => exact D.stops h
  | error h => exact h

namespace Kept

theorem pure (v : α) : D.Kept (pure v) := fun m s => .ok (D.refl m s)

theorem throw (e : Abort) : D.Kept (throw e : Exec σ α) := fun m s => .error (D.stops (D.refl m s))

theorem bind {x : Exec σ α} {f : α → Exec σ β} (hx : D.Kept x) (hf : ∀ v, D.Kept (f v)) :
    D.Kept (x >>= f) :=
  fun m s => (hx m s).bind fun v k t _ => hf v k t

theorem check (r : Except Abort α) : D.Kept (check r) := by
  cases r with
  | ok v => exact pure v
  | error e => exact throw e

theorem get {f : Machine → Exec σ α} (hf : ∀ m, D.Kept (f m)) : D.Kept (do f (← get)) :=
  fun m s => hf m m s

theorem modify {f : Machine → Machine} (hf : ∀ m s, D.Goes m s (f m) s) :
    D.Kept (modify f : Exec σ Unit) :=
  fun m s => .ok (hf m s)

end Kept

/-- What is made of parts that keep to a discipline keeps to it. -/
def comparison (D : Discipline σ) : Comparison σ σ where
  Holds x _ := D.Kept x
  pure := .pure
  throw {_ e} _ := .throw e
  bind := .bind

theorem kept_stackIndex (n : Nat) (a : UInt64) : D.Kept (stackIndex n a) := by
  refine .get fun m => ?_
  split
  · exact .throw _
  split
  · exact .throw _
  · exact .pure _

theorem kept_slot (i : Nat) (a : UInt64) : D.Kept (slot i a) := .get fun _ => .check _

theorem kept_arguments (i n : Nat) : D.Kept (arguments i n) := .get fun _ => .check _

theorem kept_guard (o : Opcode) : D.Kept (guard o) := by
  refine .get fun m => ?_
  split
  · exact .throw _
  · exact .pure _

theorem kept_checkDepth : D.Kept checkDepth := by
  refine .get fun m => ?_
  split
  · exact .throw _
  · exact .pure _

theorem kept_window (o : Opcode) (a n : UInt64) : D.Kept (window o a n) := by
  refine .bind (D.comparison.resolve a) fun r => ?_
  cases r with
  | stack i =>
    dsimp only
    split
    · exact .throw _
    · exact .bind (kept_stackIndex _ _) fun _ => kept_stackIndex i a
  | _ => exact .throw _

/-- The buffer may change if the discipline does not mind. -/
theorem kept_onOperands (h : ∀ m s operands, D.Goes m s { m with operands } s)
    (f : Operands → α × Operands) : D.Kept (onOperands f) :=
  .get fun _ => .bind (.modify fun m s => h m s _) fun _ => .pure _

/-- What is done with storage is made of requests and charges. -/
theorem asks_of_kept {b : Backend σ} (ha : ∀ r, D.Kept (ask b r))
    (hc : ∀ c n, D.Kept (charge c n)) : D.comparison.Asks b b where
  get hf := .get fun m => hf m m rfl
  ask := ha
  charge := hc
  guard := kept_guard

/-! ### Runs -/

/-- What instructions are made of keeps to the discipline. -/
structure Rules (D : Discipline σ) (b : Backend σ) : Prop where
  locals : D.comparison.Locals
  requests : D.comparison.Requests b b
  opcode : ∀ n, D.Kept (charge .opcode n)
  /-- Instructions are fetched from the program that is loaded. -/
  program : ∀ {m s k t}, D.Goes m s k t → k.program = m.program
  control : ∀ m s offset next, D.Goes m s { m with offset, next } s
  ret : D.Kept ret
  callContract : ∀ {x}, D.Kept x → ∀ o a n k, D.Kept (callContract o x a n k)
  /-- A new map is made by an instruction of the program. -/
  newMap : ∀ m s p, m.program = some p → p.Has .newmap → ∀ i, D.Ends m s (newMap b .newmap i m s)
  /-- The machine is marked after an abort. -/
  marked : ∀ {m s k t}, D.Stops m s k t → D.Stops m s { k with status := .aborted } t

namespace Rules

variable {b : Backend σ} (h : D.Rules b) {x : Exec σ Unit} (hx : D.Kept x)

include h

/-- To fetch an instruction is to go on, to count up, and to charge. -/
theorem fetch : D.Kept fetch := by
  refine .get fun m => ?_
  split
  · exact .throw _
  split
  · exact .throw _
  refine .bind (.modify fun m s => h.control m s _ _) fun _ => ?_
  split
  · exact .throw _
  · exact .bind (h.opcode _) fun _ => .pure _

include hx

/-- An instruction of the program keeps to the discipline. -/
theorem perform {p : Program} {o : Opcode} (ho : p.Has o) (l : Vector Operand 3) {m : Machine}
    (hm : m.program = some p) (s : σ) : D.Ends m s (perform b x (p, o, l) m s) := by
  have hc := h.requests.changes h.locals
  rw [Exec.perform]
  dsimp only
  by_cases hn : o = .newmap
  · subst hn
    rw [if_pos (show Opcode.newmap.mutates = true from rfl)]
    -- Neither the guard nor the operand changes what program is loaded.
    refine (kept_guard .newmap m s).bind fun _ k t hk => ?_
    refine (h.locals.fill l k t).bind fun _ k₁ t₁ hk₁ => ?_
    refine (h.locals.root .newmap k₁ t₁).bind fun i k' t' hk' => ?_
    exact h.newMap k' t' p ((h.program (D.trans hk (D.trans hk₁ hk'))).trans hm) ho i
  · split
    · next ho => exact hc.mutate o l x x p ho (fun he => absurd he hn) m s
    · next ho =>
      exact Kept.bind (h.locals.fill l) (fun _ => hc.toParts.execute (y := x) o p
        (by simpa using ho) (fun _ => h.ret) (h.callContract hx .xcall)) m s

/-- An instruction keeps a discipline if what is run in its midst does. -/
theorem step : D.Kept (step b x) := by
  intro m s
  rw [step_eq, bind_apply]
  have hf := h.fetch m s
  cases hi : Exec.fetch m s with
  | mk a t =>
    obtain ⟨r, k⟩ := a
    rw [hi] at hf
    cases r with
    | error e =>
      cases hf with
      | error hf => exact .error hf
    | ok i =>
      obtain ⟨p, o, l⟩ := i
      obtain ⟨hp, ⟨d, hd, ho, _⟩, c, _, hk, _⟩ := fetch_ok hi
      cases hf with
      | ok hf =>
        have hr := h.perform hx ⟨d, Array.mem_of_getElem? hd, ho⟩ l
          (show k.program = some p by rw [hk]; exact hp) t
        dsimp only
        generalize Exec.perform b x (p, o, l) k t = a at hr
        cases hr with
        | ok hr => exact .ok (D.trans hf hr)
        | error hr => exact .error (D.after hf hr)

/-- A turn keeps what the rules do, its mark included. -/
theorem marked_step : D.Kept (Exec.marked (Exec.step b x)) := by
  intro m s
  have hs := h.step hx m s
  rw [marked_apply]
  generalize Exec.step b x m s = a at hs
  cases hs with
  | ok hs => exact .ok hs
  | error hs => exact .error (h.marked hs)

omit hx

/-- By induction on the instructions, a run of so many keeps a discipline. -/
theorem steps (n : Nat) : D.Kept (steps b n) := by
  induction n with
  | zero => exact .pure ()
  | succ n ih =>
    -- The runs nested in the first instruction, and the instructions after it.
    refine .get fun m => ?_
    split
    · exact .bind (h.marked_step ih) fun _ => ih
    · exact .pure _

/-- Hence a run keeps it. -/
theorem run : D.Kept (run b) := by
  refine .get fun m => ?_
  dsimp only
  split
  · exact .throw _
  · exact h.steps _

/-- And so does a turn. -/
theorem turn : D.Kept (turn b) := h.marked_step h.run

end Rules

/-! ### Calm disciplines -/

/-- A discipline about credits and storage. -/
structure Calm (D : Discipline σ) (b : Backend σ) : Prop where
  calm : ∀ m s memory frames next offset operands status,
    D.Goes m s { m with memory, frames, next, offset, operands, status } s
  fixed : ∀ {m s k t}, D.Goes m s k t → k.program = m.program ∧ k.registry = m.registry
  marked : ∀ {m s k t}, D.Stops m s k t → D.Stops m s { k with status := .aborted } t
  opcode : ∀ n, D.Kept (charge .opcode n)
  callOverhead : ∀ n, D.Kept (charge .callOverhead n)
  requests : D.comparison.Requests b b
  newMap : ∀ m s p, m.program = some p → p.Has .newmap → ∀ i, D.Ends m s (newMap b .newmap i m s)
  /-- Another contract is called with the program that is registered for it. -/
  delegate : ∀ {x}, D.Kept x → ∀ m s c p, m.registry c = some p → ∀ n args,
    D.Ends m s (delegate x c p n args m s)

namespace Calm

variable {b : Backend σ} (h : D.Calm b)

include h

/-- A slot that is set is no matter to a calm discipline. -/
theorem setSlot (i : Nat) (v : Value) (a : UInt64) : D.Kept (setSlot i v a) :=
  .get fun _ => .bind (.check _) fun _ => .modify fun m s => h.calm m s _ _ _ _ _ _

/-- Nor is a jump. -/
theorem jump (p : Program) (n : UInt64) : D.Kept (jump p n) := by
  rw [Exec.jump]
  dsimp only
  split
  · exact .throw _
  · exact .modify fun m s => h.calm m s _ _ _ _ _ _

/-- A method is entered: the charge is one for a call, and the rest is calm. -/
theorem call (o : Opcode) (p : Program) (a n k : UInt64) : D.Kept (call o p a n k) := by
  rw [Exec.call]
  split
  · exact .throw _
  dsimp only
  split
  · exact .throw _
  refine .bind (h.callOverhead _) fun _ => .bind kept_checkDepth fun _ => ?_
  refine .bind (kept_window o a k) fun i => .bind (kept_arguments i _) fun args => ?_
  refine .get fun m => ?_
  split
  · exact .throw _
  refine .bind (.check _) fun _ => .bind (.check _) fun _ => ?_
  exact .modify fun m s => h.calm m s _ _ _ _ _ _

/-- A contract is called: apart from the other machine, a charge and a slot. -/
theorem callContract {x : Exec σ Unit} (hx : D.Kept x) (o : Opcode) (a n k : UInt64) :
    D.Kept (callContract o x a n k) := by
  refine .bind (kept_window o a k) fun i => .bind (kept_slot i a) fun v => ?_
  refine .bind (D.comparison.address o v) fun c => ?_
  refine .bind (h.callOverhead _) fun _ => .bind kept_checkDepth fun _ => ?_
  intro m s
  rw [get_apply]
  cases hp : m.registry c with
  | none => exact .error (D.stops (D.refl m s))
  | some p =>
    refine (kept_arguments i _ m s).bind fun args m' s' hm => ?_
    have hp : m'.registry c = some p := by rwa [(h.fixed hm).2]
    exact (h.delegate hx m' s' c p hp n args).bind fun v m' s' _ => h.setSlot i v a m' s'

/-- A return is calm altogether. -/
theorem ret : D.Kept ret := by
  refine .get fun m => ?_
  split
  · exact .throw _
  split
  · exact .modify fun m s => h.calm m s _ _ _ _ _ _
  · refine .bind (kept_slot _ stackBase) fun v => ?_
    refine .bind (.modify fun m s => h.calm m s _ _ _ _ _ _) fun _ => ?_
    refine .bind (h.setSlot _ v stackBase) fun _ => ?_
    exact .modify fun m s => h.calm m s _ _ _ _ _ _

/-- What instructions do with memory is calm, but for the charge of a call. -/
theorem locals : D.comparison.Locals where
  onOperands := kept_onOperands fun m s operands =>
    h.calm m s m.memory m.frames m.next m.offset operands m.status
  constant _ _ := .get fun _ => .check _
  slot n a := .bind (kept_stackIndex n a) fun i => kept_slot i a
  setSlot n v a := .bind (kept_stackIndex n a) fun i => h.setSlot i v a
  jump := h.jump
  call := h.call

/-- All rules follow from those for requests, charges and nested executions. -/
theorem rules : D.Rules b where
  locals := h.locals
  requests := h.requests
  opcode := h.opcode
  program hm := (h.fixed hm).1
  control m s offset next := h.calm m s m.memory m.frames next offset m.operands m.status
  ret := h.ret
  callContract := h.callContract
  newMap := h.newMap
  marked := h.marked

end Calm

end Discipline

end CreditMachine
