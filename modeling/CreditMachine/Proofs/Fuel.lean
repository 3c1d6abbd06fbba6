import CreditMachine.Proofs.Spending

/-!
# Enough instructions

A run is given a number of instructions, one more than its credits. Since every
instruction costs a credit at least, the number is never used up, and any greater
one leads to the same end (`Exec.steps_eq`): what ends a run is its program or its
budget.

An instruction first fetches and pays (`Exec.fetch`) and is then performed with
fewer credits than before. So the runs nested in it need fewer instructions, and
the induction goes through.
-/

namespace CreditMachine

namespace Exec

variable {σ : Type} (b : Backend σ)

/-- Fetches an instruction of the program and charges it. -/
def fetch : Exec σ (Program × Opcode × Vector Operand 3) := do
  let m ← get
  match m.program with
  | none => throw .notRunning
  | some p =>
    match p.code[m.next]? with
    | none => throw (.invalidJump (UInt64.ofNat m.next) p.code.size)
    | some d =>
      modify fun m => { m with offset := m.next, next := m.next + 1 }
      match Opcode.ofCode? d.code with
      | none => throw (.invalidOpcode d.code)
      | some o =>
        charge .opcode o.cost
        return (p, o, d.operands)

/-- Performs an instruction that was fetched. -/
def perform (nested : Exec σ Unit) (i : Program × Opcode × Vector Operand 3) : Exec σ Unit := do
  if i.2.1.mutates then guard i.2.1
  fill i.2.2
  execute b i.2.1 nested i.1

theorem modify_apply (f : Machine → Machine) (m : Machine) (s : σ) :
    (modify f : Exec σ Unit) m s = ((.ok (), f m), s) := rfl

/-- An instruction is fetched and performed. -/
theorem step_eq (nested : Exec σ Unit) : step b nested = fetch >>= perform b nested := by
  funext m s
  rw [bind_apply, step, fetch, get_apply, get_apply]
  dsimp only
  cases m.program with
  | none => rfl
  | some p =>
    dsimp only
    cases p.code[m.next]? with
    | none => rfl
    | some d =>
      dsimp only
      rw [bind_apply, bind_apply]
      cases Opcode.ofCode? d.code with
      | none => rfl
      | some o =>
        rw [modify_apply]
        dsimp only
        rw [bind_apply, bind_apply]
        generalize (charge .opcode o.cost : Exec σ Unit) _ s = a
        rcases a with ⟨⟨_ | _, _⟩, _⟩ <;> rfl

/-- What is fetched is the next instruction, and its cost has been charged. -/
theorem fetch_ok {p : Program} {o : Opcode} {l : Vector Operand 3} {m k : Machine} {s t : σ}
    (h : fetch m s = ((.ok (p, o, l), k), t)) :
    m.program = some p ∧
      (∃ d, p.code[m.next]? = some d ∧ Opcode.ofCode? d.code = some o ∧ d.operands = l) ∧
      ∃ c, m.credits.charge .opcode o.cost = .ok c ∧
        k = { m with offset := m.next, next := m.next + 1, credits := c } ∧ t = s := by
  rw [fetch, get_apply] at h
  -- Each of the four ways to fail is excluded in turn, in the order in which they are tried.
  cases hp : m.program with
  | none =>
    rw [hp] at h
    cases h
  | some q =>
    rw [hp] at h
    dsimp only at h
    cases hd : q.code[m.next]? with
    | none =>
      rw [hd] at h
      cases h
    | some d =>
      rw [hd] at h
      dsimp only at h
      rw [bind_apply, modify_apply] at h
      cases ho : Opcode.ofCode? d.code with
      | none =>
        rw [ho] at h
        cases h
      | some o =>
        rw [ho] at h
        dsimp only at h
        rw [bind_apply, charge_apply] at h
        dsimp only at h
        cases hc : m.credits.charge .opcode o.cost with
        | error e =>
          rw [hc] at h
          cases h
        | ok c =>
          rw [hc] at h
          cases h
          exact ⟨rfl, ⟨d, hd, ho, rfl⟩, c, hc, by rw [hp], rfl⟩

/-- A fetch costs something, unless it fails. -/
theorem fetch_cases {m : Machine} (hm : m.credits.used.toNat ≤ m.credits.budget.toNat) (s : σ) :
    (∃ e k, fetch m s = ((.error e, k), s) ∧ k.credits = m.credits) ∨
      ∃ i k, fetch m s = ((.ok i, k), s) ∧ k.credits.budget = m.credits.budget ∧
        m.credits.used.toNat < k.credits.used.toNat ∧
        k.credits.used.toNat ≤ k.credits.budget.toNat := by
  rw [fetch, get_apply]
  cases m.program with
  | none => exact .inl ⟨_, _, rfl, rfl⟩
  | some p =>
    dsimp only
    cases p.code[m.next]? with
    | none => exact .inl ⟨_, _, rfl, rfl⟩
    | some d =>
      dsimp only
      rw [bind_apply, modify_apply]
      cases Opcode.ofCode? d.code with
      | none => exact .inl ⟨_, _, rfl, rfl⟩
      | some o =>
        dsimp only
        have ho : 0 < o.cost.toNat := UInt64.lt_iff_toNat_lt.1 o.cost_pos
        rw [bind_apply, charge_apply]
        dsimp only
        rcases Credits.charge_cases hm .opcode o.cost with ⟨_, hc⟩ | ⟨hn, hc⟩ <;> rw [hc]
        · exact .inl ⟨_, _, rfl, rfl⟩
        · refine .inr ⟨_, _, rfl, rfl, ?_⟩
          dsimp only
          rw [Credits.toNat_add_of_le hn]
          omega

end Exec

/-- The credits are the same, and fewer than `n` are left. -/
def Allowance.below (n : Nat) : Allowance where
  Rel k k' := k = k' ∧ k.used.toNat ≤ k.budget.toNat ∧ k.budget.toNat < k.used.toNat + n
  Off _ _ _ := False
  May e e' := e = e'
  refl _ := rfl
  on h _ := h
  charge := by
    rintro k _ ⟨rfl, hk, hn⟩ c i
    rcases Credits.charge_cases hk c i with ⟨_, hc⟩ | ⟨hi, hc⟩ <;> rw [hc]
    refine ⟨rfl, ?_⟩
    dsimp only
    rw [Credits.toNat_add_of_le hi]
    omega
  fresh := by
    rintro k _ ⟨rfl, hk, hn⟩
    exact ⟨rfl, Nat.le_refl _, show 0 < 0 + n by omega⟩
  renew := by
    rintro k _ ⟨rfl, hk, hn⟩
    refine ⟨rfl, Nat.zero_le _, ?_⟩
    rw [Credits.new, Credits.toNat_remaining hk]
    omega
  absorb := by
    rintro k _ j _ ⟨rfl, hk, hn⟩ ⟨rfl, _⟩ _ _
    have hg := k.absorb_grows j.used j.profile
    have hu := hg.used hk
    rw [hg.budget]
    exact ⟨rfl, hu.2, by omega⟩
  absorb_off _ h := h.elim

namespace Exec

variable {σ : Type} (b : Backend σ)

open Coupling

/-- Whatever has run below fewer credits has run below more. -/
theorem ends_below {α : Type} {x y : (Except Abort α × Machine) × σ} {n : Nat}
    (h : ((Allowance.below n).coupling σ).Ends x y) :
    ((Allowance.below (n + 1)).coupling σ).Ends x y := by
  cases h with
  | lost h => exact h.elim
  | off h => exact h.elim
  | ok h =>
    obtain ⟨hm, ⟨hk, hu, hn⟩, rfl⟩ := h
    exact .ok ⟨hm, ⟨hk, hu, by omega⟩, rfl⟩
  | error he h =>
    obtain ⟨hm, ⟨hk, hu, hn⟩, rfl⟩ := h
    exact .error he ⟨hm, ⟨hk, hu, by omega⟩, rfl⟩

/-- Below a number of credits, executions that are tied are the same. -/
theorem eq_of_ends {α : Type} {x y : (Except Abort α × Machine) × σ} {n : Nat}
    (h : ((Allowance.below n).coupling σ).Ends x y) : y = x := by
  cases h with
  | lost h => exact h.elim
  | off h => exact h.elim
  | ok h =>
    obtain ⟨hm, ⟨hc, _⟩, rfl⟩ := h
    rw [hm, ← hc]
  | error he h =>
    obtain ⟨hm, ⟨hc, _⟩, rfl⟩ := h
    rw [hm, ← hc, he]

/-- Instructions that were fetched are tied if the runs nested in them are. -/
theorem tied_perform {C : Coupling σ σ} (h : C.Joins b b) {x y : Exec σ Unit} (hx : C.Tied x y)
    (i : Program × Opcode × Vector Operand 3) : C.Tied (perform b x i) (perform b y i) := by
  rw [perform, perform]
  dsimp only
  split
  · next ho => exact h.mutate _ _ x y _ ho
  · next ho =>
    exact .bind (h.locals.fill _) fun _ => h.execute _ hx _ (by simpa using ho)

/-- A run of some more instructions: one of them, if the machine is running, and then the rest. -/
theorem steps_apply (n : Nat) (m : Machine) (s : σ) :
    steps b (n + 1) m s =
      if m.status = .running then (do marked (step b (steps b n)); steps b n) m s
      else ((.ok (), m), s) := by
  rw [steps, get_apply]
  split <;> rfl

variable {b}

/-- An instruction that cannot be fetched ends a run. -/
theorem round_error {m k : Machine} {s : σ} {e : Abort} (hf : fetch m s = ((.error e, k), s))
    (x y : Exec σ Unit) :
    (do marked (step b x); y) m s = ((.error e, { k with status := .aborted }), s) := by
  rw [bind_apply, marked_apply, step_eq, bind_apply, hf]

/-- A run goes on with the instruction that was fetched. -/
theorem round_ok {m k : Machine} {s : σ} {i : Program × Opcode × Vector Operand 3}
    (hf : fetch m s = ((.ok i, k), s)) (x y : Exec σ Unit) :
    (do marked (step b x); y) m s = (do marked (perform b x i); y) k s := by
  rw [bind_apply, marked_apply, step_eq, bind_apply, hf, bind_apply, marked_apply]

variable (b)

/-- A run keeps its budget, and spends no more than that. -/
theorem spends_steps (n : Nat) : Spends Credits.Grows (steps b n) :=
  (((Allowance.below 0).asks b).writes.joins.steps n).first

/-- One instruction more makes no difference to a run that has fewer credits than
    instructions. -/
theorem tied_steps_succ (n : Nat) :
    ((Allowance.below n).coupling σ).Tied (steps b n) (steps b (n + 1)) := by
  refine ⟨fun _ _ h => h.elim, spends_steps b n, spends_steps b (n + 1), ?_⟩
  induction n with
  | zero =>
    rintro m s m' _ ⟨_, ⟨_, hu, hn⟩, _⟩
    omega
  | succ n ih =>
    rintro m s m' _ ⟨hm, ⟨hk, hu, hn⟩, rfl⟩
    obtain rfl : m' = m := by rw [hm, ← hk]
    have ih : ((Allowance.below n).coupling σ).Tied (steps b n) (steps b (n + 1)) :=
      ⟨fun _ _ h => h.elim, spends_steps b n, spends_steps b (n + 1), ih⟩
    rw [steps_apply, steps_apply]
    split
    · rcases fetch_cases hu s with ⟨e, k, hf, hc⟩ | ⟨i, k, hf, hb, hl, hu'⟩
      · rw [round_error hf, round_error hf]
        exact .error rfl ⟨rfl, ⟨rfl, by rwa [hc], by rwa [hc]⟩, rfl⟩
      · rw [round_ok hf, round_ok hf]
        -- The instruction was paid for, so the rest of the run has fewer credits.
        have hj := ((Allowance.below n).asks b).writes.joins
        refine ends_below (((tied_perform b hj ih i).marked.bind fun _ => ih).ends ?_)
        exact ⟨rfl, ⟨rfl, hu', by rw [hb]; omega⟩, rfl⟩
    · exact .ok ⟨rfl, ⟨rfl, hu, hn⟩, rfl⟩

/-- A run that has fewer credits than instructions ends as it would with any greater
    number of instructions. -/
theorem steps_eq {m : Machine} (hu : m.credits.used.toNat ≤ m.credits.budget.toNat) {n k : Nat}
    (hn : m.credits.budget.toNat < m.credits.used.toNat + n) (hk : n ≤ k) (s : σ) :
    steps b k m s = steps b n m s := by
  induction k, hk using Nat.le_induction with
  | base => rfl
  | succ k hk ih =>
    rw [← ih]
    exact eq_of_ends ((tied_steps_succ b k).ends
      (show ((Allowance.below k).coupling σ).Rel m s m s from ⟨rfl, ⟨rfl, hu, by omega⟩, rfl⟩))

end Exec

end CreditMachine
