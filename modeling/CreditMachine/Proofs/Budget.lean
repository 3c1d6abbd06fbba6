import CreditMachine.Proofs.Fuel
import CreditMachine.Proofs.Session

/-!
# Budgets

What a call comes to does not depend on its budget, as long as that suffices. Two
executions with different budgets are in lockstep, nested ones included, up to the
first charge that does not fit into the smaller budget (`Allowance.tighter`); the
one with the larger budget has spent more than the smaller one from then on.

* `Machine.call_tighter`: executions with a larger and a smaller budget are tied;
* `Call.execute_budget`: a call that uses `n` credits has the same outcome with any
  budget of at least `n`, and runs out of credits with any smaller one, leaving the
  ledger as it was.
-/

namespace CreditMachine

/-- Whether a charge did not fit into the credits that were left. -/
def Abort.isOutOfCredits : Abort → Bool
  | .outOfCredits .. => true
  | _ => false

/-- Whether an execution ended because a charge did not fit. -/
def ranOut {α : Type} : Except Abort α → Bool
  | .ok _ => false
  | .error e => e.isOutOfCredits

/-- The second machine has a smaller budget, of which it has spent as much. -/
def Allowance.tighter : Allowance where
  Rel k k' := ∃ n, k' = { k with budget := n } ∧ k.used.toNat ≤ n.toNat ∧
    n.toNat ≤ k.budget.toNat
  Off k e k' := e.isOutOfCredits ∧ k'.budget.toNat < k.used.toNat ∧
    k.used.toNat ≤ k.budget.toNat
  May e e' := e = e' ∨ e.isOutOfCredits ∧ e'.isOutOfCredits
  refl _ := .inl rfl
  on := by
    rintro k k₁ e k' ⟨he, hu, hb⟩ hk
    have hn := hk.used hb
    rw [hk.budget]
    exact ⟨he, by omega, hn.2⟩
  charge := by
    rintro k _ ⟨n, rfl, hu, hn⟩ c i
    have hu' : ({ k with budget := n } : Credits).used.toNat ≤ n.toNat := hu
    rcases Credits.charge_cases (Nat.le_trans hu hn) c i with ⟨hi, hc⟩ | ⟨hi, hc⟩ <;>
      rcases Credits.charge_cases hu' c i with ⟨hi', hc'⟩ | ⟨hi', hc'⟩ <;>
      rw [hc, hc'] <;> dsimp only at hi' ⊢
    · exact .inr ⟨rfl, rfl⟩
    · omega
    · rw [Credits.toNat_add_of_le hi]
      exact ⟨rfl, hi', hi⟩
    · exact ⟨n, rfl, by rwa [Credits.toNat_add_of_le hi], hn⟩
  fresh _ := ⟨0, rfl, Nat.le_refl _, Nat.le_refl _⟩
  renew := by
    rintro k _ ⟨n, rfl, hu, hn⟩
    refine ⟨_, rfl, Nat.zero_le _, ?_⟩
    rw [Credits.new, Credits.toNat_remaining (Nat.le_trans hu hn), Credits.toNat_remaining hu]
    exact Nat.sub_le_sub_right hn _
  absorb := by
    rintro k _ j _ ⟨n, rfl, hu, hn⟩ ⟨i, rfl, _, _⟩ _ hj
    rw [Credits.toNat_remaining hu] at hj
    have hf : k.used.toNat + j.used.toNat ≤ n.toNat := by
      dsimp only at hj
      omega
    have ha := Credits.absorb_eq (Nat.le_trans hf hn) j.profile
    have ha' := Credits.absorb_eq (k := { k with budget := n }) hf j.profile
    rw [ha, ha']
    refine ⟨n, rfl, ?_, hn⟩
    rwa [Credits.toNat_add_of_le hf]
  absorb_off := by
    rintro k _ j e j' ⟨n, rfl, hu, hn⟩ ⟨he, hj, hb⟩ hg hg'
    rw [hg.budget, Credits.new, Credits.toNat_remaining (Nat.le_trans hu hn)] at hb
    rw [hg'.budget, Credits.new, Credits.toNat_remaining hu] at hj
    have hf : k.used.toNat + j.used.toNat ≤ k.budget.toNat := by omega
    have ha := Credits.absorb_eq hf j.profile
    rw [ha]
    refine ⟨he, ?_, ?_⟩
    · rw [Credits.toNat_add_of_le hf]
      dsimp only at hj
      change n.toNat < _
      omega
    · rwa [Credits.toNat_add_of_le hf]

namespace Machine

variable {σ : Type} (b : Backend σ) (e : Entry) (args : List Value)

/-- A machine that has been given a budget of `n` may run for any greater number of
    instructions. -/
theorem run_new {m : Machine} (hm : m.status = .running) {n i : UInt64} (hi : n.toNat ≤ i.toNat)
    (s : σ) : ({ m with credits := .new n } : Machine).run b s =
      Exec.steps b (i.toNat + 1) { m with credits := .new n } s := by
  have hr := Credits.toNat_remaining (k := .new n) (Nat.zero_le _)
  change _ = n.toNat - 0 at hr
  rw [run, Exec.run, Exec.get_apply, if_neg (not_not_intro hm)]
  refine (Exec.steps_eq b (Nat.zero_le _) ?_ ?_ s).symm <;> dsimp only
  · change n.toNat < 0 + _
    omega
  · omega

/-- An execution with a smaller budget runs out of credits, and so does one with a
    larger budget, or it spends more than the smaller budget; or both are the same. -/
theorem call_tighter {m : Machine} (hm : m.credits = .new 0) {n n' : UInt64}
    (hn : n'.toNat ≤ n.toNat) (s : σ) :
    let x := m.call b e args n s
    let y := m.call b e args n' s
    ranOut y.1.1 ∧ (ranOut x.1.1 ∨ n'.toNat < x.1.2.credits.used.toNat) ∨
      x.1.2.credits.used.toNat ≤ n'.toNat ∧
        ∃ i, y = ((x.1.1, { x.1.2 with credits.budget := i }), x.2) := by
  dsimp only
  rw [call, call]
  rcases m.begin_budget e args n n' with ⟨a, ha, ha'⟩ | ⟨a, k, _, ha, ha'⟩ | ⟨k, hk, ha, ha'⟩ <;>
    rw [ha, ha'] <;> dsimp only
  · exact .inr ⟨by rw [hm]; exact Nat.zero_le _, m.credits.budget, rfl⟩
  · exact .inr ⟨Nat.zero_le _, n', rfl⟩
  · rw [run_new b hk (Nat.le_refl n.toNat), run_new b hk hn]
    -- Both runs are allowed the number of turns that the larger budget is enough for.
    have he := ((Allowance.tighter.asks b).writes.joins.steps (n.toNat + 1)).ends
      (show (Allowance.tighter.coupling σ).Rel { k with credits := .new n } s
        { k with credits := .new n' } s from ⟨rfl, ⟨n', rfl, Nat.zero_le _, hn⟩, rfl⟩)
    have hg := Exec.spends_steps b (n.toNat + 1) { k with credits := .new n' } s
    generalize Exec.steps b (n.toNat + 1) { k with credits := .new n } s = x at he ⊢
    generalize Exec.steps b (n.toNat + 1) { k with credits := .new n' } s = y at he hg ⊢
    have hb : y.1.2.credits.budget = n' := hg.budget
    cases he with
    | lost h => exact h.elim
    | off h =>
      obtain ⟨ho, hu, _⟩ := h
      exact .inl ⟨ho, .inr (by rwa [← hb])⟩
    | ok h =>
      obtain ⟨hm, ⟨i, hi, hu, _⟩, rfl⟩ := h
      rw [hi] at hm hb
      obtain rfl : i = n' := hb
      exact .inr ⟨hu, i, by rw [hm]⟩
    | error he h =>
      obtain ⟨hm, ⟨i, hi, hu, _⟩, rfl⟩ := h
      rw [hi] at hm hb
      obtain rfl : i = n' := hb
      rcases he with rfl | ⟨ho, ho'⟩
      · exact .inr ⟨hu, i, by rw [hm]⟩
      · exact .inl ⟨ho', .inl ho⟩

/-- An execution keeps within its budget. -/
theorem call_used_le {m : Machine} (hm : m.credits = .new 0) (n : UInt64) (s : σ) :
    (m.call b e args n s).1.2.credits.used.toNat ≤ n.toNat := by
  rw [call]
  rcases m.begin_budget e args n n with ⟨a, ha, _⟩ | ⟨a, k, _, ha, _⟩ | ⟨k, hk, ha, _⟩ <;> rw [ha]
  · rw [hm]
    exact Nat.zero_le _
  · exact Nat.zero_le _
  · dsimp only
    rw [run_new b hk (Nat.le_refl _)]
    exact (Exec.spends_steps b _ { k with credits := .new n } s).used_le

/-- A run that aborts leaves its machine marked so. -/
theorem status_of_steps {n : Nat} {m k : Machine} {s t : σ} {a : Abort}
    (h : Exec.steps b n m s = ((.error a, k), t)) : k.status = .aborted := by
  induction n generalizing m s with
  | zero => cases h
  | succ n ih =>
    rw [Exec.steps_apply] at h
    split at h
    · rw [Exec.bind_apply, Exec.marked_apply] at h
      generalize Exec.step b (Exec.steps b n) m s = x at h
      rcases x with ⟨⟨_ | _, m⟩, s⟩
      · cases h
        rfl
      · exact ih h
    · cases h

/-- An execution that aborts has no result. -/
theorem result_of_error {m : Machine} (hm : m.status ≠ .finished) {n : UInt64} {s : σ} {a : Abort}
    (h : (m.call b e args n s).1.1 = .error a) : (m.call b e args n s).1.2.result = none := by
  have hf : (m.call b e args n s).1.2.status ≠ .finished := by
    rw [call] at h ⊢
    rcases m.begin_budget e args n n with ⟨a, ha, _⟩ | ⟨a, k, hs, ha, _⟩ | ⟨k, hk, ha, _⟩ <;>
      rw [ha] at h ⊢
    · exact hm
    · exact fun hn => hm (hs.symm.trans hn)
    · dsimp only at h ⊢
      rw [run_new b hk (Nat.le_refl _)] at h ⊢
      rw [status_of_steps b (Prod.ext (Prod.ext h rfl) rfl)]
      decide
  rw [result, if_neg fun h => hf h.1]

end Machine

/-! ### Calls -/

/-- Whether the outcome of a call is that its credits did not suffice. -/
def Outcome.isOutOfCredits (o : Outcome) : Bool :=
  o.report.any fun r => r.code = (Abort.outOfCredits 0 0 0).code

namespace Attempt

variable (a : Attempt) (q : Call) (c : Settings)

/-- The outcome of a call tells whether its run has run out of credits. -/
theorem isOutOfCredits_outcome : (a.outcome q c).isOutOfCredits = ranOut a.ending := by
  rw [Outcome.isOutOfCredits, outcome]
  cases a.ending with
  | ok => rfl
  | error e =>
    change decide (e.code = 1) = e.isOutOfCredits
    cases e <;> rfl

/-- Running out of credits is no fault of the storage. -/
theorem fault?_of_ranOut {a : Attempt} (h : ranOut a.ending) : a.fault? = none := by
  refine fault?_eq_none fun e he => ?_
  rw [he] at h
  cases e <;> first | rfl | cases h

/-- The attempts differ in their budgets only. -/
def Alike (a a' : Attempt) : Prop := ∃ i, a' = { a with machine.credits.budget := i }

/-- Attempts that differ in their budgets only do so both ways. -/
theorem Alike.symm {a a' : Attempt} (h : a.Alike a') : a'.Alike a := by
  obtain ⟨i, rfl⟩ := h
  exact ⟨a.machine.credits.budget, rfl⟩

end Attempt

namespace Call

variable {σ : Type} {b : Backend σ} {p : Program} {registry : Registry} {c : Settings} {q : Call}

/-- The outcome of a call is that of its attempt. -/
theorem settle_ok {a : Attempt} {s : σ} {o : Outcome} (h : (q.settle b c a s).1 = .ok o) :
    o = a.outcome q c := by
  rw [settle] at h
  cases ha : a.fault? with
  | some e =>
    rw [ha] at h
    cases h
  | none =>
    rw [ha] at h
    dsimp only at h
    split at h
    · generalize a.overlay.commit b s = x at h
      obtain ⟨_ | n, o', t⟩ := x <;> cases h
      rfl
    · cases h
      rfl

/-- Attempts that differ in their budgets only are settled alike. -/
theorem settle_alike {a a' : Attempt} (ha : a.Alike a') (n : UInt64) {s : σ} {o : Outcome}
    (h : (q.settle b c a s).1 = .ok o) :
    ∃ o', ({ q with credits := n } : Call).settle b c a' s = (.ok o', (q.settle b c a s).2) ∧
      o' = { o with dump := o'.dump } := by
  obtain rfl := settle_ok h
  obtain ⟨i, rfl⟩ := ha
  have hs : ({ q with credits := n } : Call).settle b c { a with machine.credits.budget := i } s =
      ((q.settle b c a s).1.map fun _ =>
        Attempt.outcome { a with machine.credits.budget := i } { q with credits := n } c,
        (q.settle b c a s).2) := by
    have hf : ({ a with machine.credits.budget := i } : Attempt).fault? = a.fault? := rfl
    have hc : ({ q with credits := n } : Call).commits { a with machine.credits.budget := i } =
      q.commits a := rfl
    rw [settle, settle, hf, hc]
    cases a.fault? with
    | some e => rfl
    | none =>
      dsimp only
      split
      · generalize a.overlay.commit b s = x
        obtain ⟨_ | _, _, _⟩ := x <;> rfl
      · rfl
  rw [hs, h]
  exact ⟨_, rfl, rfl⟩

variable (q) in
/-- Attempts with a larger and a smaller budget. -/
theorem attempt_tighter {n n' : UInt64} (hn : n'.toNat ≤ n.toNat) (s : σ) :
    let x := ({ q with credits := n } : Call).attempt b p registry s
    let y := ({ q with credits := n' } : Call).attempt b p registry s
    ranOut y.1.ending ∧ (ranOut x.1.ending ∨ n'.toNat < x.1.machine.credits.used.toNat) ∨
      x.1.machine.credits.used.toNat ≤ n'.toNat ∧ x.1.Alike y.1 := by
  have h := Machine.call_tighter (Meter.backend (Overlay.backend b)) q.entry q.args
    (m := q.machine p registry) rfl hn (.new q.readOnly, .empty, s)
  have ha (i : UInt64) : ({ q with credits := i } : Call).attempt b p registry s =
      let x := (q.machine p registry).call (Meter.backend (Overlay.backend b)) q.entry q.args i
        (.new q.readOnly, .empty, s)
      (⟨x.1.1, x.1.2, x.2.1, x.2.2.1⟩, x.2.2.2) := rfl
  rw [ha, ha]
  dsimp only at h ⊢
  rcases h with h | ⟨hu, i, h⟩
  · exact .inl h
  · exact .inr ⟨hu, i, by rw [h]⟩

variable (b p registry q) in
/-- An attempt keeps within its budget. -/
theorem attempt_used_le (s : σ) :
    (q.attempt b p registry s).1.machine.credits.used.toNat ≤ q.credits.toNat :=
  Machine.call_used_le (Meter.backend (Overlay.backend b)) q.entry q.args
    (m := q.machine p registry) rfl q.credits (.new q.readOnly, .empty, s)

/-- An attempt that runs out of credits has no result. -/
theorem result_of_ranOut {s : σ} (h : ranOut (q.attempt b p registry s).1.ending) :
    (q.attempt b p registry s).1.machine.result = none := by
  cases he : (q.attempt b p registry s).1.ending with
  | ok =>
    rw [he] at h
    cases h
  | error e =>
    exact Machine.result_of_error (Meter.backend (Overlay.backend b)) q.entry q.args
      (m := q.machine p registry) (show Status.loaded ≠ .finished by decide) he

/-- A call of an entry of the program is an attempt, which is then settled. -/
theorem execute_of_isIn (he : q.entry.isIn p) (s : σ) :
    q.execute b p registry c s =
      q.settle b c (q.attempt b p registry s).1 (q.attempt b p registry s).2 := by
  rw [execute, if_pos he]

/-- A call of something that is no entry of the program has no outcome. -/
theorem isIn_of_execute_ok {s : σ} {o : Outcome} (ho : (q.execute b p registry c s).1 = .ok o) :
    q.entry.isIn p := by
  by_contra he
  rw [execute, if_neg he] at ho
  cases ho

/-- Any other outcome is that of the attempt. -/
theorem outcome_of_execute_ok {s : σ} {o : Outcome}
    (ho : (q.execute b p registry c s).1 = .ok o) :
    o = (q.attempt b p registry s).1.outcome q c := by
  rw [execute_of_isIn (isIn_of_execute_ok ho)] at ho
  exact settle_ok ho

/-- A call that runs out of credits has no result, and leaves the ledger as it was. -/
theorem execute_of_ranOut {l : Ledger} (he : q.entry.isIn p)
    (h : ranOut (q.attempt Ledger.backend p registry l).1.ending) :
    ∃ o, q.execute Ledger.backend p registry c l = (.ok o, l) ∧ o.isOutOfCredits ∧
      o.creditsUsed ≤ q.credits ∧ o.result = none := by
  have hu := attempt_used_le Ledger.backend p registry q l
  have hr := result_of_ranOut h
  have hl := attempt_below q p registry l
  rw [execute, if_pos he]
  generalize q.attempt Ledger.backend p registry l = x at h hu hr hl ⊢
  obtain ⟨a, _⟩ := x
  obtain rfl := hl
  have hc : q.commits a = false := by
    rw [commits]
    cases ha : a.ending with
    | ok =>
      rw [ha] at h
      cases h
    | error e => rfl
  refine ⟨_, settle_drop (Attempt.fault?_of_ranOut h) hc, ?_, ?_, hr⟩
  · rw [Attempt.isOutOfCredits_outcome]
    exact h
  · exact UInt64.le_iff_toNat_le.2 hu

/-- A call that does not run out of credits has the same outcome with any budget that
    covers what it used, but for the dump, and leaves the same ledger. With any
    smaller budget it runs out of credits and leaves the ledger as it was. -/
theorem execute_budget {l : Ledger} {o : Outcome}
    (ho : (q.execute Ledger.backend p registry c l).1 = .ok o) (hr : o.isOutOfCredits = false)
    (n : UInt64) :
    let x := q.execute Ledger.backend p registry c l
    let y := ({ q with credits := n } : Call).execute Ledger.backend p registry c l
    (o.creditsUsed ≤ n → ∃ o', y = (.ok o', x.2) ∧ o' = { o with dump := o'.dump }) ∧
      (n < o.creditsUsed → ∃ o', y = (.ok o', l) ∧ o'.isOutOfCredits ∧ o'.creditsUsed ≤ n ∧
        o'.result = none) := by
  intro x y
  have he : q.entry.isIn p := isIn_of_execute_ok ho
  have hx : x = _ := execute_of_isIn he l
  have hy : y = _ := execute_of_isIn (q := { q with credits := n }) he l
  have hs : x.1 = .ok o := ho
  rw [attempt_below] at hx hy
  rw [hx] at hs ⊢
  rw [hy]
  obtain rfl := settle_ok hs
  rw [Attempt.isOutOfCredits_outcome] at hr
  rw [UInt64.le_iff_toNat_le, UInt64.lt_iff_toNat_lt]
  -- The other budget is the smaller or the larger one.
  rcases Nat.le_total n.toNat q.credits.toNat with hn | hn
  · rcases attempt_tighter q hn l with ⟨hz, hr' | hlt⟩ | ⟨hle, ha⟩
    · exact absurd (hr.symm.trans hr') (by decide)
    · refine ⟨fun h => absurd h (Nat.not_le.2 hlt), fun _ => ?_⟩
      rw [← hy]
      exact execute_of_ranOut (q := { q with credits := n }) he hz
    · exact ⟨fun _ => settle_alike ha n hs, fun h => absurd h (Nat.not_lt.2 hle)⟩
  · rcases attempt_tighter q hn l with ⟨hz, _⟩ | ⟨_, ha⟩
    · exact absurd (hr.symm.trans hz) (by decide)
    · have hle := attempt_used_le Ledger.backend p registry q l
      refine ⟨fun _ => settle_alike ha.symm n hs, fun h => ?_⟩
      exact absurd h (Nat.not_lt.2 (Nat.le_trans hle hn))

/-- With the credits that it uses the call succeeds, and with one less it fails. -/
theorem execute_budget_sample :
    let x := sample.execute Ledger.backend sampleProgram (fun _ => none) .usual .sample
    let y (n : UInt64) := ({ sample with credits := n } : Call).execute Ledger.backend sampleProgram
      (fun _ => none) .usual .sample
    ∃ o, x.1 = .ok o ∧ o.creditsUsed = 507 ∧
      (∃ o', y 507 = (.ok o', x.2) ∧ o' = { o with dump := o'.dump }) ∧
      ∃ o', y 506 = (.ok o', .sample) ∧ o'.isOutOfCredits ∧ o'.creditsUsed ≤ 506 ∧
        o'.result = none := by
  intro x y
  have hx : (x.1.map fun o => (o.creditsUsed, o.isOutOfCredits)) = .ok (507, false) := by
    decide +kernel
  cases ho : x.1 with
  | error e =>
    rw [ho] at hx
    cases hx
  | ok o =>
    rw [ho] at hx
    obtain ⟨hu, hr⟩ := Prod.mk.inj (Except.ok.inj hx)
    obtain ⟨hs, _⟩ := execute_budget ho hr 507
    obtain ⟨_, hf⟩ := execute_budget ho hr 506
    exact ⟨o, rfl, hu, hs (by simp [hu]), hf (by simp [hu])⟩

end Call

end CreditMachine
