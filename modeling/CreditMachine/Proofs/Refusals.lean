import CreditMachine.Proofs.Reuse

/-!
# Executions that are refused

A machine may be asked to begin an execution at any time: when it is new, when it has finished or
aborted, and also when it has begun another one that it has not run. If there is no program, no such
method, or another number of arguments, then it refuses, and is as it was.

It also refuses if the frame does not fit on the stack, but then it has the new budget already, and
its own frames are gone (`Machine.begin_refused`). Its memory, its place and its status stay, so a
machine that has finished has lost its result, and one that was about to run is still running. No
return is possible without a frame (`Discipline.unframed`), so that its run, which would have gone
well, can only abort (`Machine.run_unframed`, `Machine.not_begin_refused`).
-/

namespace CreditMachine

/-! ### Machines without frames -/

namespace Discipline

open Exec

variable {σ : Type}

/-- A machine without frames gets none, and does not come to an end. -/
def unframed (σ : Type) : Discipline σ where
  Goes m _ k _ := k.program = m.program ∧ (m.frames = [] → k.frames = [] ∧ k.status = m.status)
  Stops m _ k _ := m.frames = [] → k.frames = []
  refl _ _ := ⟨rfl, fun h => ⟨h, rfl⟩⟩
  trans h h' := by
    refine ⟨h'.1.trans h.1, fun hm => ?_⟩
    obtain ⟨hk, hs⟩ := h.2 hm
    obtain ⟨hj, ht⟩ := h'.2 hk
    exact ⟨hj, ht.trans hs⟩
  stops h hm := (h.2 hm).1
  after h h' hm := h' (h.2 hm).1

theorem unframed_setSlot (i : Nat) (v : Value) (a : UInt64) :
    (unframed σ).Kept (setSlot i v a) :=
  kept_setSlot fun _ _ _ _ => ⟨rfl, fun h => ⟨h, rfl⟩⟩

theorem unframed_enter (d : Method) (i : Nat) (args : List Value) :
    (unframed σ).Kept (enter d i args) := by
  refine kept_enter fun m f k k' _ hf _ _ => ⟨rfl, fun h => ?_⟩
  rw [h] at hf
  cases hf

theorem unframed_ret : (unframed σ).Kept ret := by
  have hn {m : Machine} {f : Frame} {l : List Frame} (hf : m.frames = f :: l)
      (h : m.frames = []) : False := List.cons_ne_nil f l (hf.symm.trans h)
  exact kept_ret (fun _ _ _ _ hf => ⟨rfl, fun h => (hn hf h).elim⟩)
    (fun _ _ _ _ hf h => (hn hf h).elim) fun _ _ _ _ _ _ _ hf _ => ⟨rfl, fun h => (hn hf h).elim⟩

/-- No turn gives a machine a frame that has none. -/
theorem steady_unframed : (unframed σ).Steady where
  steady _ _ _ _ _ _ _ := ⟨rfl, fun h => ⟨h, rfl⟩⟩
  program h := h.1
  marked := id
  setSlot := unframed_setSlot
  enter := unframed_enter
  ret := unframed_ret

end Discipline

namespace Machine

open Discipline

variable {σ : Type} {b : Backend σ} {c : Address} {q : Bool} {d : Nat} {registry : Registry}
  {m k : Machine}

/-- Turns that end in a property end with it. -/
theorem Until.last {P : Machine → Prop} {s t : σ} (h : Until b P m s k t) : P k := by
  induction h with
  | done h => exact h
  | turn _ _ _ _ ih => exact ih

/-- A machine that is not running refuses to run, and is as it was. -/
theorem run_of_not_running (hm : m.status ≠ .running) (s : σ) :
    m.run b s = ((.error .notRunning, m), s) := by
  rw [run, Exec.run, Exec.get_apply, if_pos hm]
  rfl

/-- A machine that runs without frames aborts, and has none in the end. -/
theorem run_unframed (hm : m.status = .running) (hf : m.frames = [])
    (hu : m.credits.used.toNat ≤ m.credits.budget.toNat) (s : σ) :
    ∃ a k t, m.run b s = ((.error a, k), t) ∧ k.status = .aborted ∧ k.frames = [] := by
  have hr := (steady_unframed.rules b).run m s
  rw [run]
  cases he : Exec.run b m s with
  | mk x t =>
  obtain ⟨a | ⟨⟩, k⟩ := x
  · rw [he] at hr
    rw [Exec.run_of_running hm] at he
    cases hr with
    | error hr => exact ⟨a, k, t, rfl, status_of_steps b he, hr hf⟩
  · -- A run that goes well does not end with a machine that is running.
    have hl := (until_of_run hm hu he).last
    rw [he] at hr
    cases hr with
    | ok hr => exact absurd ((hr.2 hf).2.trans hm) hl

/-! ### Refusals -/

/-- The stack overflows if there is a method that fits, but whose frame does not. -/
theorem target_of_overflow (hm : m.memory.capacity = stackCapacity) {e : Entry} {args : List Value}
    {n : UInt64} {i j : Nat} (h : (m.begin e args n).1 = .error (.stackOverflow i j)) :
    ∃ p t, m.program = some p ∧ target p args.length e = .ok t ∧ args.length = t.arity ∧
      stackCapacity < t.frame := by
  rw [begin] at h
  split at h
  · cases h
  next p hp =>
  split at h
  · next a ha =>
    obtain rfl : a = .stackOverflow i j := Except.error.inj h
    cases e with
    | offset => cases ha
    | _ =>
      rw [target] at ha
      split at ha <;> cases ha
  next t ht =>
  split at h
  · cases h
  next hn =>
  refine ⟨p, t, hp, ht, not_not.1 hn, Nat.lt_of_not_le fun hl => ?_⟩
  -- A frame that fits has slots for the arguments.
  have hf := arity_lt_frame ht
  have hs : m.memory.push 0 t.frame = .ok _ := push_of_le hm (by omega)
  generalize hk : m.memory.stack.take 0 ++ _ = l at hs
  obtain ⟨k', hk'⟩ : ∃ k', passArgs 0 1 args { m.memory with stack := l } = .ok k' :=
    passArgs_ok (by rw [← hk]; simp; omega)
  dsimp only at h
  rw [hs] at h
  dsimp only at h
  rw [hk'] at h
  cases h

/-- An execution is refused. For want of a program or of a method, or because of the number of
    arguments, this leaves the machine as it was, so that its run is the same, too. Otherwise the
    frame of a method does not fit on the stack. Then the machine has the new budget, of which
    nothing is used, and no frames, hence no result; all else is as it was. If it was not running
    then it refuses to run, as before. If it was then its run aborts. -/
theorem begin_refused (h : m.Used b c q d registry) {e : Entry} {args : List Value} {n : UInt64}
    {a : Abort} (hk : m.begin e args n = (.error a, k)) :
    ((m.program = none ∧ a = .notRunning ∨ (∃ t, a = .undefinedMethod t) ∨
        ∃ t i j, a = .arityMismatch t i j) ∧ k = m ∧ ∀ s, k.run b s = m.run b s) ∨
      (∃ p t i j, m.program = some p ∧ target p args.length e = .ok t ∧ stackCapacity < t.frame ∧
          a = .stackOverflow i j) ∧
        k = { m with credits := .new n, frames := [] } ∧ k.result = none ∧
        (m.status ≠ .running → ∀ s, m.run b s = ((.error .notRunning, m), s) ∧
          k.run b s = ((.error .notRunning, k), s)) ∧
        (m.status = .running → ∀ s, ∃ a k' t, k.run b s = ((.error a, k'), t) ∧
          k'.status = .aborted) := by
  have hm := h.made.capacity
  rcases begin_cases hm e args n with ⟨_, ha, hr⟩ | ⟨i, j, ha⟩ | ⟨_, _, _, _, _, _, _, _, _, ha⟩
  · cases hk.symm.trans ha
    exact .inl ⟨hr, rfl, fun _ => rfl⟩
  · obtain ⟨p, t, hp, ht, _, hf⟩ := target_of_overflow hm (congrArg Prod.fst ha)
    obtain ⟨he, hk⟩ := Prod.mk.inj (hk.symm.trans ha)
    have hs : k.status = m.status := by rw [hk]
    have hl : k.frames = [] := by rw [hk]
    have hu : k.credits.used.toNat ≤ k.credits.budget.toNat := by
      rw [hk]
      exact Nat.zero_le _
    refine .inr ⟨⟨p, t, i, j, hp, ht, hf, Except.error.inj he⟩, hk, ?_, fun hr s => ?_,
      fun hr s => ?_⟩
    · rw [result, stackValue, hl]
      split <;> rfl
    · exact ⟨run_of_not_running hr s, run_of_not_running (hs ▸ hr) s⟩
    · obtain ⟨a, k', t, hk', ha, _⟩ := run_unframed (b := b) (hs.trans hr) hl hu s
      exact ⟨a, k', t, hk', ha⟩
  · cases hk.symm.trans ha

theorem used_starting : starting.Used Ledger.backend ⟨7⟩ false 0
    (fun c => if c = ⟨7⟩ then some relay else none) :=
  .step (.step (.new _) (.load _ relay)) (.begin _ (.index 0) [] 2000)

/-- The machine when it has run. -/
def completed : Machine := (starting.run Ledger.backend .sample).1.2

/-- The execution that was begun has run. -/
theorem used_completed : completed.Used Ledger.backend ⟨7⟩ false 0
    (fun c => if c = ⟨7⟩ then some relay else none) := by
  have h := used_starting.run Ledger.sample
  exact h

/-- A machine that is about to run refuses a method that there is not, and a frame. It refuses the
    frame again when it has run. -/
theorem begin_refused_starting :
    let k := (starting.begin (.offset 0 2000) [] 50).2
    let j := (completed.begin (.offset 0 2000) [] 50).2
    starting.begin (.index 2) [] 50 = (.error (.undefinedMethod "#2"), starting) ∧
      (starting.begin (.offset 0 2000) [] 50 = (.error (.stackOverflow 2000 1024), k) ∧
        k = { starting with credits := .new 50, frames := [] } ∧
        ∃ a k' t, k.run Ledger.backend .sample = ((.error a, k'), t) ∧ k'.status = .aborted) ∧
      (completed.begin (.offset 0 2000) [] 50 = (.error (.stackOverflow 2000 1024), j) ∧
        completed.status = .finished ∧ completed.result ≠ none ∧ j.result = none ∧
        j.run Ledger.backend .sample = ((.error .notRunning, j), .sample)) := by
  intro k j
  have ho {m : Machine} {e : Entry} {n : UInt64} {a : Abort} (h : (m.begin e [] n).1 = .error a) :
      m.begin e [] n = (.error a, (m.begin e [] n).2) := Prod.ext h rfl
  have hu : starting.begin (.index 2) [] 50 = (.error (.undefinedMethod "#2"), _) :=
    ho (by decide +kernel)
  have hk : starting.begin (.offset 0 2000) [] 50 = (.error (.stackOverflow 2000 1024), k) :=
    ho (by decide +kernel)
  have hj : completed.begin (.offset 0 2000) [] 50 = (.error (.stackOverflow 2000 1024), j) :=
    ho (by decide +kernel)
  refine ⟨?_, ⟨hk, ?_⟩, hj, by decide +kernel, by decide +kernel, ?_⟩
  · rcases begin_refused used_starting hu with ⟨_, he, _⟩ | ⟨⟨_, _, _, _, _, _, _, ha⟩, _⟩
    · rw [hu, he]
    · cases ha
  · rcases begin_refused used_starting hk with ⟨⟨_, ha⟩ | ⟨_, ha⟩ | ⟨_, _, _, ha⟩, _⟩ |
      ⟨_, he, _, _, hr⟩
    · cases ha
    · cases ha
    · cases ha
    · exact ⟨he, hr (by decide +kernel) .sample⟩
  · rcases begin_refused used_completed hj with
      ⟨⟨_, ha⟩ | ⟨_, ha⟩ | ⟨_, _, _, ha⟩, _⟩ | ⟨_, _, hn, hr, _⟩
    · cases ha
    · cases ha
    · cases ha
    · exact ⟨hn, (hr (by decide +kernel) .sample).2⟩

/-- A machine may be changed by a refusal, and not run as it would have run. -/
theorem not_begin_refused : ¬∀ {c : Address} {q : Bool} {d : Nat} {registry : Registry}
    {m k : Machine} {e : Entry} {args : List Value} {n : UInt64} {a : Abort} {s : Ledger},
    m.Used Ledger.backend c q d registry → m.begin e args n = (.error a, k) →
    k = m ∧ k.run Ledger.backend s = m.run Ledger.backend s := by
  intro h
  have hk : (starting.begin (.offset 0 2000) [] 50).1 = .error (.stackOverflow 2000 1024) := by
    decide +kernel
  have hr : (starting.begin (.offset 0 2000) [] 50).2.run Ledger.backend .sample =
      starting.run Ledger.backend .sample := (h used_starting (Prod.ext hk rfl)).2
  have ho : (starting.run Ledger.backend .sample).1.1.isOk := by decide +kernel
  have hn : ¬((starting.begin (.offset 0 2000) [] 50).2.run Ledger.backend .sample).1.1.isOk := by
    decide +kernel
  rw [hr] at hn
  exact hn ho

end Machine

end CreditMachine
