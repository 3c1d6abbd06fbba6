import CreditMachine.Proofs.Fuel

/-!
# Turns

A run is made of *turns*, one for each instruction: the machine fetches it, pays for it
and executes it, with the runs of other machines nested in it, and is marked as aborted if
that fails (`Exec.turn`). The number of instructions that a run is given never shows: a
run is turns, one after the other, as long as the machine is running (`Exec.run_turn`,
`Machine.until_of_run`).

Between turns a program may be loaded, and an execution may be begun, or refused
(`Machine.begin_cases`). The machines that these steps lead to are the *reachable* ones
(`Machine.Reachable`).
-/

namespace CreditMachine

/-! ### Nested runs -/

namespace Exec

variable {σ : Type} (b : Backend σ)

/-- How a run is nested does not matter, as long as it is the same run of the machine that has
    begun. -/
theorem delegate_congr_at {x y : Exec σ Unit} {m : Machine} {c : Address} {p : Program}
    {n : UInt64} {args : List Value} {s : σ}
    (h : ∀ g, (callee m c p).begin (.index n) args m.credits.remaining = (.ok (), g) →
      x g s = y g s) : delegate x c p n args m s = delegate y c p n args m s := by
  rw [delegate_apply, delegate_apply, begin_apply, begin_apply]
  cases hb : (callee m c p).begin (.index n) args m.credits.remaining with
  | mk r g =>
  rcases r with e | _
  · rfl
  · dsimp only
    rw [h g hb]

/-- How a run is nested does not matter, as long as it is the same run of machines that are
    running. -/
theorem delegate_congr {x y : Exec σ Unit} (h : ∀ m s, m.status = .running → x m s = y m s)
    (c : Address) (p : Program) (n : UInt64) (args : List Value) :
    delegate x c p n args = delegate y c p n args := by
  funext m s
  refine delegate_congr_at fun g hg => h g s ?_
  rcases (callee m c p).begin_budget (.index n) args m.credits.remaining m.credits.remaining with
    ⟨a, ha, _⟩ | ⟨a, k, _, ha, _⟩ | ⟨k, hk, ha, _⟩ <;> rw [ha] at hg <;> cases hg
  exact hk

theorem execute_congr {x y : Exec σ Unit} (h : ∀ m s, m.status = .running → x m s = y m s)
    (o : Opcode) (p : Program) : execute b o x p = execute b o y p := by
  have hc (a n k : UInt64) : callContract .xcall x a n k = callContract .xcall y a n k := by
    unfold callContract
    simp only [delegate_congr h]
  by_cases ho : o = .xcall
  · subst ho
    simp only [execute, hc]
  · cases o <;> first | exact absurd rfl ho | rfl

theorem step_congr {x y : Exec σ Unit} (h : ∀ m s, m.status = .running → x m s = y m s) :
    step b x = step b y := by
  have hp : perform b x = perform b y := by
    funext i
    rw [perform, perform, execute_congr b h]
  rw [step_eq, step_eq, hp]

/-! ### Runs -/

/-- One instruction of a machine that is running. -/
def turn : Exec σ Unit := marked (step b (run b))

/-- What is left of a run. -/
def rest : Exec σ Unit := do
  if (← get).status = .running then run b

variable {b} {m : Machine}

theorem rest_of_running (hm : m.status = .running) (s : σ) : rest b m s = run b m s := by
  rw [rest, get_apply, if_pos hm]

theorem rest_of_not_running (hm : m.status ≠ .running) (s : σ) : rest b m s = ((.ok (), m), s) := by
  rw [rest, get_apply, if_neg hm]
  rfl

/-- A run has as many turns as there are credits, and one more for the abort. -/
theorem run_of_running (hm : m.status = .running) (s : σ) :
    run b m s = steps b (m.credits.remaining.toNat + 1) m s := by
  rw [run, get_apply, if_neg (not_not_intro hm)]

variable (b)

/-- What is left of a run keeps to the budget, too. -/
theorem spends_rest : Spends Credits.Grows (rest b) := by
  intro m s
  by_cases hm : m.status = .running
  · rw [rest_of_running hm, run_of_running hm]
    exact spends_steps b _ m s
  · rw [rest_of_not_running hm]
    exact Credits.Grows.refl _

/-- With fewer credits than instructions, a run goes on to its end. -/
theorem steps_eq_rest (hu : m.credits.used.toNat ≤ m.credits.budget.toNat) {n : Nat}
    (hn : m.credits.budget.toNat < m.credits.used.toNat + n) (s : σ) :
    steps b n m s = rest b m s := by
  by_cases hm : m.status = .running
  · have hr := Credits.toNat_remaining hu
    rw [rest_of_running hm, run_of_running hm]
    exact steps_eq b hu (by omega) (by omega) s
  · rw [rest_of_not_running hm]
    cases n with
    | zero => omega
    | succ n => rw [steps_apply, if_neg hm]

/-- The number of turns that a run is allowed does not matter, if there are enough. -/
theorem tied_rest (n : Nat) : ((Allowance.below n).coupling σ).Tied (steps b n) (rest b) where
  lost _ _ h := h.elim
  first := spends_steps b n
  second := spends_rest b
  ends := by
    rintro m s m' _ ⟨hm, ⟨hk, hu, hn⟩, rfl⟩
    obtain rfl : m' = m := by rw [hm, ← hk]
    have hg := spends_steps b n m' s
    rw [← steps_eq_rest b hu hn]
    generalize steps b n m' s = a at hg ⊢
    obtain ⟨⟨r, k⟩, t⟩ := a
    have hb : k.credits.budget = m'.credits.budget := hg.budget
    have hg : m'.credits.used.toNat ≤ k.credits.used.toNat ∧
      k.credits.used.toNat ≤ m'.credits.budget.toNat := hg.used hu
    have hl : (Allowance.below n).Rel k.credits k.credits := ⟨rfl, by rw [hb]; omega⟩
    rcases r with e | v
    · exact .error rfl ⟨rfl, hl, rfl⟩
    · exact .ok ⟨rfl, hl, rfl⟩

theorem turn_eq : turn b = marked (step b (rest b)) := by
  rw [turn, step_congr b fun m s hm => (rest_of_running hm s).symm]

/-- A run is a turn, and the rest of the run. -/
theorem run_turn (hm : m.status = .running)
    (hu : m.credits.used.toNat ≤ m.credits.budget.toNat) (s : σ) :
    run b m s = (do turn b; rest b) m s := by
  rw [run_of_running hm, steps_apply, if_pos hm, turn_eq]
  rcases fetch_cases hu s with ⟨e, k, hf, _⟩ | ⟨i, k, hf, hb, hl, hu'⟩
  · rw [round_error hf, round_error hf]
  · have hr := Credits.toNat_remaining hu
    have hj := ((Allowance.below m.credits.remaining.toNat).asks b).writes.joins
    have ht := tied_rest b m.credits.remaining.toNat
    rw [round_ok hf, round_ok hf]
    -- The instruction was paid for, so fewer credits are left than instructions.
    refine (eq_of_ends (((tied_perform b hj ht i).marked.bind fun _ => ht).ends ?_)).symm
    exact ⟨rfl, ⟨rfl, hu', by rw [hb]; omega⟩, rfl⟩

variable {b}

/-- A turn costs something, unless it fails. -/
theorem turn_ok (hu : m.credits.used.toNat ≤ m.credits.budget.toNat) {k : Machine} {s t : σ}
    (h : turn b m s = ((.ok (), k), t)) : k.credits.budget = m.credits.budget ∧
      m.credits.used.toNat < k.credits.used.toNat ∧
      k.credits.used.toNat ≤ m.credits.budget.toNat := by
  rw [turn_eq, marked_apply, step_eq, bind_apply] at h
  rcases fetch_cases hu s with ⟨e, j, hf, _⟩ | ⟨i, j, hf, hb, hl, hu'⟩
  · rw [hf] at h
    cases h
  · have hj := ((Allowance.below 0).asks b).writes.joins
    have hg := (tied_perform b hj (tied_rest b 0) i).second j s
    rw [hf] at h
    dsimp only at h
    generalize perform b (rest b) i j s = a at h hg
    obtain ⟨⟨_ | _, k'⟩, t'⟩ := a <;> cases h
    have hn : j.credits.used.toNat ≤ k.credits.used.toNat ∧ k.credits.used.toNat ≤ _ := hg.used hu'
    exact ⟨hg.budget.trans hb, by omega, hb ▸ hn.2⟩

end Exec

namespace Machine

open Exec

/-! ### Beginnings -/

/-- The arguments of a call fit into its frame. -/
theorem arity_lt_frame {p : Program} {n : Nat} {e : Entry} {t : Target}
    (h : target p n e = .ok t) : t.arity < t.frame := by
  have hl (i j : Nat) : j < max i (j + 1) := by omega
  cases e with
  | offset i f =>
    cases h
    exact hl _ _
  | _ =>
    rw [target] at h
    split at h <;> cases h
    exact hl _ _

/-- Arguments are passed if there are slots for them. -/
theorem passArgs_ok {base i : Nat} {l : List Value} {k : Memory}
    (h : base + i + l.length ≤ k.stack.size) : ∃ k', passArgs base i l k = .ok k' := by
  induction l generalizing i k with
  | nil => exact ⟨k, rfl⟩
  | cons v l ih =>
    rw [List.length_cons] at h
    have hs (a : UInt64) : k.set (base + i) v a =
        .ok { k with stack := k.stack.setIfInBounds (base + i) v } := if_pos (by omega)
    rw [passArgs, hs]
    exact ih (by simpa using by omega)

/-- A frame that fits ends the stack, whose slots below it stay. -/
theorem push_of_le {k : Memory} (hk : k.capacity = stackCapacity) {base size : Nat}
    (hn : base + size ≤ stackCapacity) : k.push base size = .ok
      { k with
        stack := k.stack.take base ++
          Array.replicate (base + size - (k.stack.take base).size) .nil } := by
  have hc : stackCapacity < ceiling := by decide
  have hs : base + size ≤ ceiling := by omega
  rw [Memory.push, hk]
  dsimp only
  rw [if_pos hs, if_neg (Nat.not_lt.2 hn)]

/-- A frame fits, or it is refused. -/
theorem push_cases {k : Memory} (hk : k.capacity = stackCapacity) (base size : Nat) :
    (∃ i j, k.push base size = .error (.stackOverflow i j)) ∨
      base + size ≤ stackCapacity ∧ k.push base size = .ok
        { k with
          stack := k.stack.take base ++
            Array.replicate (base + size - (k.stack.take base).size) .nil } := by
  by_cases hn : base + size ≤ stackCapacity
  · exact .inr ⟨hn, push_of_le hk hn⟩
  · have hc : stackCapacity < ceiling := by decide
    have hs : stackCapacity < if base + size ≤ ceiling then base + size else ceiling := by
      split <;> omega
    rw [Memory.push, hk]
    dsimp only
    rw [if_pos hs]
    exact .inl ⟨_, _, rfl⟩

/-- An execution is refused without any change, for want of a program or of a method that it
    fits; or because of its frame, after the credits were reset and the frames given up; or it
    begins. -/
theorem begin_cases {m : Machine} (hm : m.memory.capacity = stackCapacity) (e : Entry)
    (args : List Value) (n : UInt64) :
    (∃ a, m.begin e args n = (.error a, m) ∧ (m.program = none ∧ a = .notRunning ∨
      (∃ t, a = .undefinedMethod t) ∨ ∃ t i j, a = .arityMismatch t i j)) ∨
      (∃ i j, m.begin e args n =
        (.error (.stackOverflow i j), { m with credits := .new n, frames := [] })) ∨
      ∃ p t k k', m.program = some p ∧ target p args.length e = .ok t ∧ args.length = t.arity ∧
        m.memory.push 0 t.frame = .ok k ∧ passArgs 0 1 args k = .ok k' ∧
        m.begin e args n = (.ok (), { m with
          memory := k'
          credits := .new n
          frames := [⟨0, t.frame, 0, none⟩]
          next := t.offset
          offset := t.offset
          returns := t.returns
          status := .running }) := by
  rw [begin]
  split
  · next hp => exact .inl ⟨_, rfl, .inl ⟨hp, rfl⟩⟩
  next p hp =>
  split
  · next a ha =>
    refine .inl ⟨a, rfl, .inr (.inl ?_)⟩
    cases e with
    | offset => cases ha
    | _ =>
      rw [target] at ha
      split at ha <;> cases ha
      exact ⟨_, rfl⟩
  next t ht =>
  split
  · exact .inl ⟨_, rfl, .inr (.inr ⟨_, _, _, rfl⟩)⟩
  next hn =>
  rw [not_not] at hn
  dsimp only
  rcases push_cases hm 0 t.frame with ⟨i, j, hk⟩ | ⟨_, hk⟩
  · rw [hk]
    exact .inr (.inl ⟨i, j, rfl⟩)
  -- With a frame that fits, the arguments do, too: a method has more slots than arguments.
  have hf := arity_lt_frame ht
  rw [hk]
  generalize hs : m.memory.stack.take 0 ++ _ = l at hk
  have hl : 0 + 1 + args.length ≤ l.size := by
    rw [← hs]
    simp
    omega
  obtain ⟨k', hk'⟩ := passArgs_ok (k := { m.memory with stack := l }) hl
  dsimp only
  rw [hk']
  exact .inr (.inr ⟨p, t, _, k', hp, ht, hn, hk, hk', rfl⟩)

/-- A call begins an execution and runs it. -/
theorem call_eq {σ : Type} (b : Backend σ) (m : Machine) (e : Entry) (args : List Value)
    (n : UInt64) (s : σ) : m.call b e args n s = (do Exec.begin e args n; Exec.run b) m s := by
  rw [begin_apply, call]
  rfl

/-! ### Steps -/

section Steps

variable {σ : Type} (b : Backend σ)

/-- A machine goes on turn by turn, until it is as `P` says. -/
inductive Until (P : Machine → Prop) : Machine → σ → Machine → σ → Prop
  | done {m s} : P m → Until P m s m s
  | turn {m s k t m' s'} : ¬P m → m.status = .running → turn b m s = ((.ok (), k), t) →
    Until P k t m' s' → Until P m s m' s'

/-- A step of a machine. The storage may have changed since the last one. -/
inductive Step : Machine → Machine → Prop
  | load (m : Machine) (p : Program) : Step m (m.load p)
  | begin (m : Machine) (e : Entry) (args : List Value) (n : UInt64) : Step m (m.begin e args n).2
  | turn {m : Machine} (s : σ) : m.status = .running → Step m (turn b m s).1.2

/-- The machines that are reachable. -/
inductive Reachable : Machine → Prop
  | new (c : Address) (constantOnly : Bool) (registry : Registry) (depth : Nat) :
    Reachable (new c constantOnly registry depth)
  | step {m m' : Machine} : Reachable m → Step b m m' → Reachable m'

variable {b}

/-- A run that succeeds goes on turn by turn until the machine stops. -/
theorem until_of_run {m m' : Machine} {s s' : σ} (hm : m.status = .running)
    (hu : m.credits.used.toNat ≤ m.credits.budget.toNat)
    (h : Exec.run b m s = ((.ok (), m'), s')) : Until b (·.status ≠ .running) m s m' s' := by
  -- Every turn costs something, so fewer and fewer credits are left.
  generalize hn : m.credits.budget.toNat - m.credits.used.toNat = n
  induction n using Nat.strong_induction_on generalizing m s with
  | _ n ih =>
    rw [run_turn b hm hu, bind_apply] at h
    split at h
    · next k t hk =>
      obtain ⟨hb, hl, hu'⟩ := turn_ok hu hk
      refine .turn (not_not_intro hm) hm hk ?_
      by_cases hr : k.status = .running
      · rw [rest_of_running hr] at h
        exact ih _ (by rw [hb]; omega) hr (by rwa [hb]) h rfl
      · rw [rest_of_not_running hr] at h
        cases h
        exact .done hr
    · cases h

end Steps

end Machine

end CreditMachine
