import CreditMachine.Proofs.Discipline

/-!
# Frames on the stack

The frames of a machine divide its stack: each ends where the next one begins, and the
last one ends the stack (`Stacked`). This, and that the constants in memory are those of
the program, is true of every machine that is reachable (`Machine.Reachable.tidy`), also
of one that has aborted in the middle of a return.

Disciplines of this kind are about memory and frames only. For such a *steady* one, there is
only to show what happens when a slot is set, a method entered, or left (`Discipline.Steady.rules`).
Whether these keep to it is a matter of the machines that they lead to (`Discipline.kept_setSlot`,
`Discipline.kept_enter`, `Discipline.kept_ret`).
-/

namespace CreditMachine

/-! ### Calls and returns of methods -/

namespace Exec

variable {σ α : Type}

theorem check_apply (x : Except Abort α) (m : Machine) (s : σ) : check x m s = ((x, m), s) := rfl

theorem slot_apply (i : Nat) (a : UInt64) (m : Machine) (s : σ) :
    slot i a m s = ((m.memory.slot i a, m), s) := rfl

/-- A slot that is not there is not set. -/
theorem setSlot_apply (i : Nat) (v : Value) (a : UInt64) (m : Machine) (s : σ) :
    setSlot i v a m s =
      match m.memory.set i v a with
      | .ok k => ((.ok (), { m with memory := k }), s)
      | .error e => ((.error e, m), s) := by
  rw [setSlot, get_apply, bind_apply, check_apply]
  cases m.memory.set i v a <;> rfl

/-- What a return does. -/
theorem ret_apply (m : Machine) (s : σ) :
    ret m s =
      match m.frames with
      | [] => ((.error .notRunning, m), s)
      | f :: l =>
        match f.resultAt with
        | none => ((.ok (), { m with status := .finished }), s)
        | some i =>
          match m.memory.slot f.base stackBase with
          | .error e => ((.error e, m), s)
          | .ok v =>
            match (m.memory.pop f.base).set i v stackBase with
            | .error e => ((.error e, { m with memory := m.memory.pop f.base, frames := l }), s)
            | .ok k => ((.ok (), { m with memory := k, frames := l, next := f.returnTo }), s) := by
  obtain ⟨_, _, _, _, _, k, frames, _, _, _, _, _, _⟩ := m
  rw [ret, get_apply]
  -- A frame that no method has called has no place for its result.
  rcases frames with _ | ⟨f, l⟩
  · rfl
  dsimp only
  cases f.resultAt with
  | none => rfl
  | some i =>
    dsimp only
    rw [bind_apply, slot_apply]
    dsimp only
    cases k.slot f.base stackBase with
    | error e => rfl
    | ok v =>
      dsimp only
      rw [bind_apply, modify_apply]
      dsimp only
      rw [bind_apply, setSlot_apply]
      dsimp only
      cases (k.pop f.base).set i v stackBase <;> rfl

/-- Enters the method `d`, with a frame at the end of the stack. The result goes to the
    slot `i`. -/
def enter (d : Method) (i : Nat) (args : List Value) : Exec σ Unit := do
  let m ← get
  match m.frames.head? with
  | none => throw .notRunning
  | some f =>
    let base := f.base + f.size
    let memory ← check (m.memory.push base d.frame)
    let memory ← check (Machine.passArgs base 1 args memory)
    modify fun m => { m with
      memory := memory
      frames := ⟨base, d.frame, m.next, some i⟩ :: m.frames
      next := d.entry.toNat }

/-- A call of a method is prepared, and then the method is entered. -/
theorem call_eq (o : Opcode) (p : Program) (a n k : UInt64) : (call o p a n k : Exec σ Unit) =
    (match p.methods[n.toNat]? with
    | none => throw (.undefinedMethod (Entry.index n).text)
    | some d => do
      if k ≠ UInt64.ofNat d.arity.toNat then
        throw (.arityMismatch d.name (UInt64.ofNat d.arity.toNat) k)
      charge .callOverhead (mulSat argumentCost k)
      checkDepth
      let i ← window o a k
      let args ← arguments i k.toNat
      enter d i args) := rfl

/-- What it is to enter a method. -/
theorem enter_apply (d : Method) (i : Nat) (args : List Value) (m : Machine) (s : σ) :
    enter d i args m s =
      match m.frames.head? with
      | none => ((.error .notRunning, m), s)
      | some f =>
        match m.memory.push (f.base + f.size) d.frame with
        | .error e => ((.error e, m), s)
        | .ok k =>
          match Machine.passArgs (f.base + f.size) 1 args k with
          | .error e => ((.error e, m), s)
          | .ok k => ((.ok (), { m with
              memory := k
              frames := ⟨f.base + f.size, d.frame, m.next, some i⟩ :: m.frames
              next := d.entry.toNat }), s) := by
  rw [enter, get_apply]
  rcases m.frames.head? with _ | f
  · rfl
  dsimp only
  rw [bind_apply, check_apply]
  cases m.memory.push (f.base + f.size) d.frame with
  | error e => rfl
  | ok k =>
    dsimp only
    rw [bind_apply, check_apply]
    cases Machine.passArgs (f.base + f.size) 1 args k <;> rfl

end Exec

/-! ### Tidy machines -/

/-- The frames `l` divide a stack of `n` slots. -/
def Stacked : List Frame → Nat → Prop
  | [], _ => True
  | f :: l, n => f.base + f.size = n ∧ Stacked l f.base

namespace Machine

/-- The memory of a machine fits its program and its frames. -/
structure Tidy (m : Machine) : Prop where
  capacity : m.memory.capacity = stackCapacity
  constants : ∀ p, m.program = some p → m.memory.constants = p.constants
  frames : Stacked m.frames m.memory.stack.size

/-- A frame changes the stack only. -/
theorem push_keeps {k l : Memory} {base size : Nat} (h : k.push base size = .ok l) :
    ∃ stack, l = { k with stack } := by
  rw [Memory.push] at h
  dsimp only at h
  generalize (if base + size ≤ ceiling then base + size else ceiling) = n at h
  split at h <;> cases h
  exact ⟨_, rfl⟩

/-- Arguments are written to slots that are there. -/
theorem passArgs_keeps {base i : Nat} {l : List Value} {k k' : Memory}
    (h : passArgs base i l k = .ok k') :
    ∃ s, k' = { k with stack := s } ∧ s.size = k.stack.size := by
  induction l generalizing i k with
  | nil =>
    cases h
    exact ⟨_, rfl, rfl⟩
  | cons v l ih =>
    rw [passArgs, Memory.set] at h
    split at h
    · obtain ⟨s, rfl, hs⟩ := ih h
      exact ⟨s, rfl, by simpa using hs⟩
    · cases h

variable {m : Machine}

/-- Memory and frames are what is tidy. -/
theorem Tidy.still (h : m.Tidy) (credits : Credits) (offset next : Nat) (operands : Operands)
    (status : Status) : ({ m with credits, offset, next, operands, status } : Machine).Tidy :=
  ⟨h.capacity, h.constants, h.frames⟩

/-- The active frame ends the stack. -/
theorem Tidy.active (h : m.Tidy) {f : Frame} (hf : m.frames.head? = some f) :
    f.base + f.size = m.memory.stack.size := by
  obtain ⟨_, hl⟩ := List.head?_eq_some_iff.1 hf
  have hs := h.frames
  rw [hl] at hs
  exact hs.1

/-- A slot that is set leaves the memory in order. -/
theorem Tidy.set (h : m.Tidy) {k : Memory} {i : Nat} {v : Value} {a : UInt64}
    (hk : m.memory.set i v a = .ok k) : ({ m with memory := k } : Machine).Tidy := by
  rw [Memory.set] at hk
  split at hk <;> cases hk
  exact ⟨h.capacity, h.constants, by simpa using h.frames⟩

/-- A frame is given up with its slots. -/
theorem Tidy.pop (h : m.Tidy) {f : Frame} {l : List Frame} (hm : m.frames = f :: l) :
    ({ m with memory := m.memory.pop f.base, frames := l } : Machine).Tidy := by
  have hf := h.frames
  rw [hm] at hf
  obtain ⟨hn, hl⟩ := hf
  have hs : (m.memory.pop f.base).stack.size = f.base := by
    rw [Memory.pop]
    simp
    omega
  exact ⟨h.capacity, h.constants, by rwa [hs]⟩

/-- A frame is added at the end of the stack. -/
theorem Tidy.push (h : m.Tidy) {f : Frame} (hm : m.frames.head? = some f) {d : Method}
    {args : List Value} {k k' : Memory} (hk : m.memory.push (f.base + f.size) d.frame = .ok k)
    (ha : passArgs (f.base + f.size) 1 args k = .ok k') (returnTo next : Nat) (i : Option Nat) :
    ({ m with
      memory := k'
      frames := ⟨f.base + f.size, d.frame, returnTo, i⟩ :: m.frames
      next := next } : Machine).Tidy := by
  obtain ⟨l, hl⟩ : ∃ l, m.frames = f :: l := List.head?_eq_some_iff.1 hm
  have hf := h.frames
  rw [hl] at hf
  obtain ⟨hn, hs⟩ := hf
  obtain ⟨s, rfl, hz⟩ := passArgs_keeps ha
  rcases push_cases h.capacity (f.base + f.size) d.frame with ⟨_, _, he⟩ | ⟨_, he⟩ <;>
    rw [he] at hk <;> cases hk
  refine ⟨h.capacity, h.constants, ?_, ?_⟩
  · rw [hz]
    simp
  · rw [hl]
    exact ⟨rfl, hs⟩

end Machine

/-! ### Steps -/

namespace Discipline

open Exec

variable {σ : Type}

section Kept

variable {D : Discipline σ} {i : Nat} {v : Value} {a : UInt64} {d : Method} {args : List Value}

/-- A discipline keeps to setting slots if it allows for the memory that results. -/
theorem kept_setSlot (h : ∀ m k s, m.memory.set i v a = .ok k →
    D.Goes m s { m with memory := k } s) : D.Kept (setSlot i v a) := by
  intro m s
  rw [setSlot_apply]
  split
  · next hk => exact .ok (h m _ s hk)
  · exact .error (D.stops (D.refl m s))

/-- A discipline keeps to entering methods if it allows for a new frame. -/
theorem kept_enter (h : ∀ m f k k' s, m.frames.head? = some f →
    m.memory.push (f.base + f.size) d.frame = .ok k →
    Machine.passArgs (f.base + f.size) 1 args k = .ok k' →
    D.Goes m s { m with
      memory := k'
      frames := ⟨f.base + f.size, d.frame, m.next, some i⟩ :: m.frames
      next := d.entry.toNat } s) : D.Kept (enter d i args) := by
  intro m s
  rw [enter_apply]
  split
  · exact .error (D.stops (D.refl m s))
  next f hf =>
  split
  · exact .error (D.stops (D.refl m s))
  next k hk =>
  split
  · exact .error (D.stops (D.refl m s))
  · next k' hk' => exact .ok (h m f k k' s hf hk hk')

/-- A return finishes an execution, or gives up a frame. Then it fails if the result goes
    nowhere. -/
theorem kept_ret
    (hf : ∀ m f l s, m.frames = f :: l → D.Goes m s { m with status := .finished } s)
    (hs : ∀ m f l s, m.frames = f :: l →
      D.Stops m s { m with memory := m.memory.pop f.base, frames := l } s)
    (hr : ∀ m f l i v k s, m.frames = f :: l → (m.memory.pop f.base).set i v stackBase = .ok k →
      D.Goes m s { m with memory := k, frames := l, next := f.returnTo } s) : D.Kept ret := by
  intro m s
  rw [ret_apply]
  split
  · exact .error (D.stops (D.refl m s))
  next f l hm =>
  split
  · exact .ok (hf m f l s hm)
  next i _ =>
  split
  · exact .error (D.stops (D.refl m s))
  next v _ =>
  split
  · exact .error (hs m f l s hm)
  · next k hk => exact .ok (hr m f l i v k s hm hk)

end Kept

/-- A discipline about memory and frames: credits, storage, operands, and the place that has been
    reached may be any. -/
structure Steady (D : Discipline σ) : Prop where
  steady : ∀ m s credits offset next operands t,
    D.Goes m s { m with credits, offset, next, operands } t
  program : ∀ {m s k t}, D.Goes m s k t → k.program = m.program
  marked : ∀ {m s k t}, D.Stops m s k t → D.Stops m s { k with status := .aborted } t
  setSlot : ∀ i v a, D.Kept (setSlot i v a)
  enter : ∀ d i args, D.Kept (enter d i args)
  ret : D.Kept ret

namespace Steady

variable {D : Discipline σ} (h : D.Steady)

include h

/-- A steady discipline does not mind requests. -/
theorem ask (b : Backend σ) (r : Request) : D.Kept (ask b r) := by
  intro m s
  have hm := h.steady m s m.credits m.offset m.next m.operands (b r s).2
  rw [ask_apply]
  generalize b r s = x at hm
  obtain ⟨_ | a, t⟩ := x
  · exact .error (D.stops hm)
  · exact .ok hm

/-- Nor does it mind charges. -/
theorem charge (c : Category) (n : UInt64) : D.Kept (charge c n) := by
  intro m s
  rw [charge_apply]
  split
  · exact .ok (h.steady m s _ m.offset m.next m.operands s)
  · exact .error (D.stops (D.refl m s))

/-- Nor jumps. -/
theorem jump (p : Program) (n : UInt64) : D.Kept (jump p n) := by
  rw [Exec.jump]
  dsimp only
  split
  · exact .throw _
  · exact .modify fun m s => h.steady m s m.credits m.offset _ m.operands s

/-- A call of a method enters it, and does nothing else but to charge. -/
theorem call (o : Opcode) (p : Program) (a n k : UInt64) : D.Kept (call o p a n k) := by
  rw [call_eq]
  split
  · exact .throw _
  dsimp only
  split
  · exact .throw _
  refine .bind (h.charge _ _) fun _ => .bind kept_checkDepth fun _ => ?_
  refine .bind (kept_window o a k) fun i => .bind (kept_arguments i _) fun args => ?_
  exact h.enter _ i args

/-- What is called is another machine. -/
theorem delegate (x : Exec σ Unit) (c : Address) (p : Program) (n : UInt64) (args : List Value) :
    D.Kept (delegate x c p n args) := by
  intro m s
  rw [delegate_apply]
  generalize (do begin (.index n) args m.credits.remaining; x) (callee m c p) s = a
  obtain ⟨⟨_ | _, k⟩, u⟩ := a
  · exact .error (D.stops (h.steady m s _ m.offset m.next m.operands u))
  · exact .ok (h.steady m s _ m.offset m.next m.operands u)

/-- A call of another contract sets a slot, whatever the other machine does. -/
theorem callContract (x : Exec σ Unit) (o : Opcode) (a n k : UInt64) :
    D.Kept (callContract o x a n k) := by
  refine .bind (kept_window o a k) fun i => .bind (kept_slot i a) fun v => ?_
  refine .bind (D.comparison.address o v) fun c => ?_
  refine .bind (h.charge _ _) fun _ => .bind kept_checkDepth fun _ => .get fun m => ?_
  split
  · exact .throw _
  · refine .bind (kept_arguments i _) fun args => ?_
    exact .bind (h.delegate x c _ n args) fun v => h.setSlot i v a

/-- So a discipline that is steady is kept by every execution. -/
theorem rules (b : Backend σ) : D.Rules b where
  locals :=
    { onOperands := kept_onOperands fun m s _ => h.steady m s m.credits m.offset m.next _ s
      constant := fun _ _ => .get fun _ => .check _
      slot := fun n a => .bind (kept_stackIndex n a) fun i => kept_slot i a
      setSlot := fun n v a => .bind (kept_stackIndex n a) fun i => h.setSlot i v a
      jump := h.jump
      call := h.call }
  requests := (asks_of_kept (h.ask b) h.charge).requests
  opcode := h.charge .opcode
  program := h.program
  control m s offset next := h.steady m s m.credits offset next m.operands s
  ret := h.ret
  callContract _ := h.callContract _
  newMap m s _ _ _ i := (asks_of_kept (h.ask b) h.charge).newMap .newmap i m s
  marked := h.marked

end Steady

/-- Machines stay tidy. -/
def tidy (σ : Type) : Discipline σ where
  Goes m _ k _ := k.program = m.program ∧ (m.Tidy → k.Tidy)
  Stops m _ k _ := m.Tidy → k.Tidy
  refl _ _ := ⟨rfl, id⟩
  trans h h' := ⟨h'.1.trans h.1, h'.2 ∘ h.2⟩
  stops h := h.2
  after h h' := h' ∘ h.2

theorem tidy_setSlot (i : Nat) (v : Value) (a : UInt64) : (tidy σ).Kept (setSlot i v a) :=
  kept_setSlot fun _ _ _ hk => ⟨rfl, fun h => h.set hk⟩

theorem tidy_enter (d : Method) (i : Nat) (args : List Value) : (tidy σ).Kept (enter d i args) :=
  kept_enter fun _ _ _ _ _ hf hk hk' => ⟨rfl, fun h => h.push hf hk hk' _ _ _⟩

/-- A frame that is given up takes its slots along. -/
theorem tidy_ret : (tidy σ).Kept ret := by
  refine kept_ret (fun m _ _ _ _ => ⟨rfl, fun h => ?_⟩) (fun _ _ _ _ hm h => h.pop hm)
    fun m f _ _ _ _ _ hm hk => ⟨rfl, fun h => ?_⟩
  · exact h.still m.credits m.offset m.next m.operands .finished
  · exact ((h.pop hm).set hk).still m.credits m.offset f.returnTo m.operands m.status

/-- Tidiness does not depend on credits, nor on the place that has been reached. -/
theorem steady_tidy : (tidy σ).Steady where
  steady m _ _ _ _ _ _ := ⟨rfl, fun h => h.still _ _ _ _ m.status⟩
  program h := h.1
  marked h hm := (h hm).still _ _ _ _ _
  setSlot := tidy_setSlot
  enter := tidy_enter
  ret := tidy_ret

end Discipline

namespace Machine

open Discipline

variable {σ : Type} {b : Backend σ} {m m' : Machine}

/-- However a machine goes on, it stays tidy. -/
theorem Step.tidy (h : m.Step b m') (hm : m.Tidy) : m'.Tidy := by
  cases h with
  | load p =>
    refine ⟨hm.capacity, ?_, hm.frames⟩
    rintro _ ⟨⟩
    rfl
  | begin e args n =>
    rcases begin_cases hm.capacity e args n with ⟨a, ha, _⟩ | ⟨i, j, ha⟩ |
      ⟨p, t, k, k', hp, _, _, hk, hk', ha⟩ <;> rw [ha]
    · exact hm
    · exact ⟨hm.capacity, hm.constants, trivial⟩
    · obtain ⟨s, rfl, hs⟩ := passArgs_keeps hk'
      rcases push_cases hm.capacity 0 t.frame with ⟨_, _, he⟩ | ⟨_, he⟩ <;>
        rw [he] at hk <;> cases hk
      refine ⟨hm.capacity, hm.constants, ?_, trivial⟩
      rw [hs]
      simp
  | turn s => exact ((steady_tidy.rules b).turn m s).stopped hm

/-- Whatever has been done with a machine, its memory is in order. -/
theorem Reachable.tidy (h : m.Reachable b) : m.Tidy := by
  induction h with
  | new c q registry depth => exact ⟨rfl, fun _ h => (nomatch h), trivial⟩
  | step _ hs ih => exact hs.tidy ih

end Machine

end CreditMachine
