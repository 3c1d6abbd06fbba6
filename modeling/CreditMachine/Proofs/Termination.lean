import CreditMachine.Proofs.Executing

/-!
# Termination

A run goes on turn by turn until its machine stops, without any limit on their number, and so
does a run that is nested in a turn. This is told here without the number of instructions that
runs are given (`Exec.Turns`, `Exec.Runs`), together with the number of instructions that
are fetched, those of nested runs included.

There is at most one end to a run (`Exec.Runs.unique`), and there is one, since every fetch
but the last one has been paid for: with a credit of the machine that fetches, which the
machines that wait for it pay in turn. So a run ends within as many fetches as there are
credits in the budget, and one more (`Machine.run_ends`). This is the run of the machine: the
number of instructions that it is given is never used up.
-/

namespace CreditMachine

namespace Exec

variable {σ : Type}

/-! ### Runs without a limit -/

/-- The next instruction of the machine `m`, whose operands have all been taken, calls another
    contract, and comes to a run of the machine `g` on the storage `u`. -/
def Nests (m : Machine) (s : σ) (g : Machine) (u : σ) : Prop :=
  ∃ p l a n j k t, fetch m s = ((.ok (p, .xcall, l), k), t) ∧
    l.toList = [.addr a, .imm n, .imm j] ∧
    Calls .xcall a n j (k.holding ⟨l, 3⟩) t g u

/-- Whatever machine is run, the run comes to `a`. -/
def ending (a : (Except Abort Unit × Machine) × σ) : Exec σ Unit :=
  ExceptT.mk fun _ _ => a

mutual

/-- A turn of a machine that is running, with the number of instructions that are fetched. -/
inductive Turns (b : Backend σ) : Machine → σ → Nat → (Except Abort Unit × Machine) × σ → Prop
  /-- No other machine is run. -/
  | alone {m : Machine} {s : σ} : (∀ g u, ¬Nests m s g u) →
    Turns b m s 1 (marked (step b (pure ())) m s)
  /-- Another machine is run to its end. -/
  | nest {m g : Machine} {s u : σ} {n : Nat} {a : (Except Abort Unit × Machine) × σ} :
    Nests m s g u → Runs b g u n a → Turns b m s (n + 1) (marked (step b (ending a)) m s)

/-- A run of a machine to its end, with the number of instructions that are fetched. -/
inductive Runs (b : Backend σ) : Machine → σ → Nat → (Except Abort Unit × Machine) × σ → Prop
  | done {m : Machine} {s : σ} : m.status ≠ .running → Runs b m s 0 ((.ok (), m), s)
  | turn {m k : Machine} {s t : σ} {i n : Nat} {a : (Except Abort Unit × Machine) × σ} :
    m.status = .running → Turns b m s i ((.ok (), k), t) → Runs b k t n a → Runs b m s (i + n) a
  | abort {m k : Machine} {s t : σ} {i : Nat} {e : Abort} :
    m.status = .running → Turns b m s i ((.error e, k), t) → Runs b m s i ((.error e, k), t)

end

variable {b : Backend σ} {m g : Machine} {s u : σ}

/-! ### Uniqueness -/

/-- At most one machine is run in the midst of a turn. -/
theorem Nests.unique (h : Nests m s g u) {g' : Machine} {u' : σ} (h' : Nests m s g' u') :
    g = g' ∧ u = u' := by
  obtain ⟨p, l, a, n, j, k, t, hf, hl, r, k', hr, hg⟩ := h
  obtain ⟨_, _, _, _, _, _, _, hf', hl', _, _, hr', hg'⟩ := h'
  cases hf.symm.trans hf'
  cases hl.symm.trans hl'
  cases hr.symm.trans hr'
  cases hg.symm.trans hg'
  exact ⟨rfl, rfl⟩

/-- What a turn comes to depends on the run that is nested in it, and on no other. -/
theorem step_congr_at {x y : Exec σ Unit} (h : ∀ g u, Nests m s g u → x g u = y g u) :
    step b x m s = step b y m s := by
  rw [step_eq, step_eq]
  refine bind_congr_at fun i k t hi => perform_congr_at fun a n j ho hl => ?_
  exact callContract_congr fun g u hg => h g u ⟨i.1, i.2.2, a, n, j, k, t, ho ▸ hi, hl, hg⟩

theorem Turns.pos {n : Nat} {a : (Except Abort Unit × Machine) × σ} (h : Turns b m s n a) :
    0 < n := by
  cases h <;> omega

/-- By induction on the number of instructions: a machine has one run at most, nested runs
    included. -/
theorem Runs.unique {n n' : Nat} {a a' : (Except Abort Unit × Machine) × σ}
    (h : Runs b m s n a) (h' : Runs b m s n' a') : n' = n ∧ a' = a := by
  induction n using Nat.strong_induction_on generalizing m s a n' a' with
  | _ n ih =>
    -- The runs that are nested in a turn are shorter, and so is the rest of a run.
    have ht {i i' y y'} (hi : i ≤ n) (ht : Turns b m s i y) (ht' : Turns b m s i' y') :
        i' = i ∧ y' = y := by
      cases ht with
      | alone hn =>
        cases ht' with
        | alone => exact ⟨rfl, rfl⟩
        | nest hg => exact absurd hg (hn _ _)
      | nest hg hr =>
        cases ht' with
        | alone hn => exact absurd hg (hn _ _)
        | nest hg' hr' =>
          obtain ⟨rfl, rfl⟩ := hg.unique hg'
          obtain ⟨rfl, rfl⟩ := ih _ (by omega) hr hr'
          exact ⟨rfl, rfl⟩
    cases h with
    | done hm =>
      cases h' with
      | done => exact ⟨rfl, rfl⟩
      | turn hr => exact absurd hr hm
      | abort hr => exact absurd hr hm
    | turn hm hi hr =>
      have hp := hi.pos
      cases h' with
      | done hn => exact absurd hm hn
      | turn _ hi' hr' =>
        obtain ⟨rfl, he⟩ := ht (by omega) hi hi'
        cases he
        obtain ⟨rfl, rfl⟩ := ih _ (by omega) hr hr'
        exact ⟨rfl, rfl⟩
      | abort _ hi' => cases (ht (by omega) hi hi').2
    | abort hm hi =>
      cases h' with
      | done hn => exact absurd hm hn
      | turn _ hi' => cases (ht (Nat.le_refl _) hi hi').2
      | abort _ hi' => exact ht (Nat.le_refl _) hi hi'

/-! ### What is paid for -/

/-- An abort may come from an instruction that was not paid for. -/
def surplus : Except Abort Unit → Nat
  | .ok _ => 0
  | .error _ => 1

/-- The machine has paid for `n` instructions, but for the last one if it aborts there. -/
def Paid (m : Machine) (n : Nat) (a : (Except Abort Unit × Machine) × σ) : Prop :=
  n + m.credits.used.toNat ≤ a.1.2.credits.used.toNat + surplus a.1.1

/-- What two parts of a run have paid for is paid for. -/
theorem Paid.add {k : Machine} {t : σ} {i n : Nat} {a : (Except Abort Unit × Machine) × σ}
    (h : Paid m i ((.ok (), k), t)) (hk : Paid k n a) : Paid m (i + n) a := by
  have h : i + m.credits.used.toNat ≤ k.credits.used.toNat := h
  rw [Paid] at hk ⊢
  omega

/-- A mark is not paid for. -/
theorem paid_marked {n : Nat} (x : Exec σ Unit) : Paid m n (marked x m s) ↔ Paid m n (x m s) := by
  rw [marked_apply]
  rcases x m s with ⟨⟨_ | _, _⟩, _⟩ <;> rfl

/-- What comes before a call of another contract is tied, if charges are. -/
theorem tied_prepare {C : Coupling σ σ} (hc : ∀ c n, C.Tied (charge c n) (charge c n)) (o : Opcode)
    (a n : UInt64) : C.Tied (prepare o a n) (prepare o a n) := by
  refine .bind (Coupling.tied_window o a n) fun i => .bind (Coupling.tied_slot i a) fun v => ?_
  refine .bind (C.comparison.address o v) fun c => .bind (hc _ _) fun _ => ?_
  refine .bind Coupling.tied_checkDepth fun _ => .get fun m q k => ?_
  dsimp only
  cases m.registry c with
  | none => exact .throw rfl
  | some p => exact .bind (Coupling.tied_arguments i _) fun args => .pure _

/-- Whatever a nested run comes to, its credits are absorbed, and an abort is handed on. -/
theorem delegate_absorbs {k : Machine} {c : Address} {p : Program} {n : UInt64} {args : List Value}
    (hg : (callee k c p).begin (.index n) args k.credits.remaining = (.ok (), g)) (x : Exec σ Unit)
    (i : Nat) (a : UInt64) (u : σ) :
    let y := x g u
    let z := (do setSlot i (← delegate x c p n args) a) k u
    z.1.2.credits = k.credits.absorb y.1.2.credits.used y.1.2.credits.profile ∧
      surplus y.1.1 ≤ surplus z.1.1 := by
  dsimp only
  rw [bind_apply, delegate_apply, begin_apply, hg]
  dsimp only
  rcases x g u with ⟨⟨_ | _, k'⟩, t⟩
  · exact ⟨rfl, Nat.le_refl _⟩
  · dsimp only [Except.map]
    rw [setSlot_apply]
    dsimp only
    split <;> exact ⟨rfl, Nat.zero_le _⟩

/-- A machine that calls another one has paid for the instruction, and leaves the rest to the
    other one. It absorbs the credits that are used there, and aborts if the other one does. -/
theorem Nests.step_cases (h : Nests m s g u)
    (hm : m.credits.used.toNat ≤ m.credits.budget.toNat) : g.status = .running ∧
      ∃ k : Credits, k.budget = m.credits.budget ∧ m.credits.used.toNat < k.used.toNat ∧
        k.used.toNat ≤ k.budget.toNat ∧ g.credits = .new k.remaining ∧ ∀ x : Exec σ Unit,
          let y := x g u
          let a := step b x m s
          a.1.2.credits = k.absorb y.1.2.credits.used y.1.2.credits.profile ∧
            surplus y.1.1 ≤ surplus a.1.1 := by
  obtain ⟨p, l, a, n, j, k, t, hf, ho, ⟨i, c, q, args⟩, k', hr, hg⟩ := h
  obtain rfl : l = #v[.addr a, .imm n, .imm j] := Vector.toList_inj.1 ho
  rcases fetch_cases hm s with ⟨e, k₁, hf', _⟩ | ⟨i', k₁, hf', hb, hl, hu⟩ <;>
    cases hf.symm.trans hf'
  have hp := (tied_prepare (σ := σ) ((Allowance.below 0).asks b).charge .xcall a j).first
    (k.holding ⟨#v[.addr a, .imm n, .imm j], 3⟩) s
  rw [hr] at hp
  have hb' : k'.credits.budget = k.credits.budget := hp.budget
  have hu' : k.credits.used.toNat ≤ k'.credits.used.toNat ∧ _ := hp.used hu
  dsimp only at hg
  rcases (callee k' c q).begin_budget (.index n) args k'.credits.remaining k'.credits.remaining
    with ⟨_, he, _⟩ | ⟨_, _, _, he, _⟩ | ⟨g', hg', he, _⟩ <;> cases hg.symm.trans he
  refine ⟨hg', k'.credits, hb'.trans hb, by omega, hb' ▸ hu'.2, rfl, fun x => ?_⟩
  have hx : step b x m s = (do setSlot i (← delegate x c q n args) a) k' u := by
    rw [step_eq, bind_apply, hf]
    dsimp only
    rw [perform_xcall, callContract_eq, bind_apply, hr]
  rw [hx]
  exact delegate_absorbs he x i a u

variable (b)

/-- Whatever a turn does, its instruction is paid for, or it is the last one. -/
theorem paid_turn (hm : m.credits.used.toNat ≤ m.credits.budget.toNat) (s : σ) :
    Paid m 1 (turn b m s) := by
  have hg := (((Allowance.below 0).asks b).writes.joins.step (tied_rest b 0)).marked.second m s
  rw [← turn_eq] at hg
  have hu : m.credits.used.toNat ≤ (turn b m s).1.2.credits.used.toNat := (hg.used hm).1
  cases ha : turn b m s with
  | mk r t =>
  obtain ⟨_ | _, k⟩ := r
  · rw [ha] at hu
    exact (Nat.add_comm ..).trans_le (Nat.add_le_add_right hu 1)
  · exact (Nat.add_comm ..).trans_le (turn_ok hm ha).2.1

variable {b}

/-- A turn pays for the run that is nested in it, too. -/
theorem Nests.paid_turn (h : Nests m s g u)
    (hm : m.credits.used.toNat ≤ m.credits.budget.toNat) {n : Nat}
    (hn : Paid g n (rest b g u)) : Paid m (n + 1) (turn b m s) := by
  obtain ⟨_, k, hb, hl, hu, hg, hx⟩ := h.step_cases (b := b) hm
  obtain ⟨hc, he⟩ := hx (rest b)
  have hr := Credits.toNat_remaining hu
  have hk := (show (Credits.new k.remaining).Grows _ from hg ▸ spends_rest b g u).used_le
  have hf : k.used.toNat + (rest b g u).1.2.credits.used.toNat ≤ k.budget.toNat := by omega
  rw [turn_eq, paid_marked, Paid, hc, Credits.absorb_eq hf, Credits.toNat_add_of_le hf]
  rw [Paid, hg] at hn
  have hn : n ≤ _ := hn
  omega

/-- A turn comes to an end if the run does that is nested in it. -/
theorem exists_turns (hm : m.credits.used.toNat ≤ m.credits.budget.toNat)
    (h : ∀ g u, Nests m s g u → ∃ n, Runs b g u n (rest b g u) ∧ Paid g n (rest b g u)) :
    ∃ i, Turns b m s i (turn b m s) ∧ Paid m i (turn b m s) := by
  by_cases hn : ∃ g u, Nests m s g u
  · obtain ⟨g, u, hg⟩ := hn
    obtain ⟨n, hn, hp⟩ := h g u hg
    have hs : step b (rest b) m s = step b (ending (rest b g u)) m s := by
      refine step_congr_at fun g' u' hg' => ?_
      obtain ⟨rfl, rfl⟩ := hg.unique hg'
      rfl
    have ht : turn b m s = marked (step b (ending (rest b g u))) m s := by
      rw [turn_eq, marked_apply, marked_apply, hs]
    exact ⟨n + 1, ht ▸ .nest hg hn, hg.paid_turn hm hp⟩
  · have hn g u (hg : Nests m s g u) : False := hn ⟨g, u, hg⟩
    have hs : step b (rest b) m s = step b (pure ()) m s :=
      step_congr_at fun g u hg => (hn g u hg).elim
    have ht : turn b m s = marked (step b (pure ())) m s := by
      rw [turn_eq, marked_apply, marked_apply, hs]
    exact ⟨1, ht ▸ .alone hn, paid_turn b hm s⟩

/-- A run comes to an end, and so does every run that is nested in it. -/
theorem exists_runs (hm : m.credits.used.toNat ≤ m.credits.budget.toNat) (s : σ) :
    ∃ n, Runs b m s n (rest b m s) ∧ Paid m n (rest b m s) := by
  -- Every instruction costs something, so fewer and fewer credits are left.
  generalize hj : m.credits.budget.toNat - m.credits.used.toNat = j
  induction j using Nat.strong_induction_on generalizing m s with
  | _ j ih =>
    by_cases hr : m.status = .running
    · obtain ⟨i, hi, hp⟩ : ∃ i, Turns b m s i (turn b m s) ∧ Paid m i (turn b m s) := by
        refine exists_turns hm fun g u hg => ?_
        obtain ⟨_, k, hb, hl, hu, hc, _⟩ := hg.step_cases (b := b) hm
        have hk := Credits.toNat_remaining hu
        rw [hb] at hk hu
        refine ih k.remaining.toNat (by omega) ?_ u ?_ <;> rw [hc]
        · exact Nat.zero_le _
        · rfl
      rw [rest_of_running hr, run_turn b hr hm, bind_apply]
      cases ha : turn b m s with
      | mk r t =>
      rw [ha] at hi hp
      obtain ⟨e | _, k⟩ := r
      · exact ⟨i, .abort hr hi, hp⟩
      · obtain ⟨hb, hl, hu⟩ := turn_ok hm ha
        obtain ⟨n, hn, hq⟩ := ih _ (by rw [hb]; omega) (by rwa [hb]) t rfl
        exact ⟨i + n, .turn hr hi hn, hp.add hq⟩
    · rw [rest_of_not_running hr]
      exact ⟨0, .done hr, (Nat.zero_add _).le⟩

end Exec

namespace Machine

open Exec

variable {σ : Type} {b : Backend σ} {m g : Machine}

/-- Every execution ends within its budget. When it has begun, with a budget of `n`, its run
    comes to one end and to no other, without a limit on the instructions: to that of the
    machine. There it has fetched no more than `n + 1` instructions, with all the runs that
    are nested in it. -/
theorem run_ends {e : Entry} {args : List Value} {n : UInt64}
    (h : m.begin e args n = (.ok (), g)) (s : σ) :
    ∃ j ≤ n.toNat + 1, ∀ i a, Runs b g s i a ↔ i = j ∧ a = g.run b s := by
  obtain ⟨hr, hg⟩ : g.status = .running ∧ g.credits = .new n := by
    rcases m.begin_budget e args n n with ⟨_, he, _⟩ | ⟨_, _, _, he, _⟩ | ⟨k, hk, he, _⟩ <;>
      cases h.symm.trans he
    exact ⟨hk, rfl⟩
  obtain ⟨j, hj, hp⟩ := exists_runs (b := b) (m := g) (by rw [hg]; exact Nat.zero_le _) s
  have hu := (show (Credits.new n).Grows _ from hg ▸ spends_rest b g s).used_le
  have he : surplus (rest b g s).1.1 ≤ 1 := by
    cases (rest b g s).1.1 with
    | ok => exact Nat.zero_le _
    | error => exact Nat.le_refl _
  rw [Paid, hg] at hp
  have hp : j ≤ _ := hp
  rw [rest_of_running hr] at hj hu he hp
  refine ⟨j, by omega, fun i a => ⟨fun ha => hj.unique ha, ?_⟩⟩
  rintro ⟨rfl, rfl⟩
  exact hj

/-- A machine that calls its own contract. -/
theorem run_ends_relay :
    let m := (new ⟨7⟩ false (fun c => if c = ⟨7⟩ then some relay else none) 0).load relay
    m.begin (.index 0) [] 2000 = (.ok (), starting) ∧ ∃ j ≤ 2001, ∀ i a,
      Runs Ledger.backend starting .sample i a ↔
        i = j ∧ a = starting.run Ledger.backend .sample := by
  intro m
  have hm : m.begin (.index 0) [] 2000 = (.ok (), starting) := Prod.ext (by rfl) rfl
  obtain ⟨j, hj, hr⟩ := run_ends hm Ledger.sample
  exact ⟨hm, j, hj, hr⟩

end Machine

end CreditMachine
