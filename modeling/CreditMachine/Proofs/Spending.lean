import CreditMachine.Proofs.Lockstep

/-!
# What machines spend

A charge is made if it fits into the budget, and then it is added to what was
spent; a nested execution has a budget of its own, what is left of the budget of
its caller, and is paid for afterwards. So an execution keeps its budget, spends
more and more of it, and never more than it (`Credits.Grows`).

Executions of one machine over one storage that differ in their credits only are
compared by an `Allowance`: a relation between credits that charges, nested
budgets and payments keep. From this it follows that the executions are tied
(`Allowance.asks`).
-/

namespace CreditMachine

namespace Credits

variable {k k' k₁ : Credits}

/-- How credits change while a machine executes. -/
structure Grows (k k' : Credits) : Prop where
  budget : k'.budget = k.budget
  used : k.used.toNat ≤ k.budget.toNat →
    k.used.toNat ≤ k'.used.toNat ∧ k'.used.toNat ≤ k.budget.toNat

theorem Grows.refl (k : Credits) : k.Grows k := ⟨rfl, fun h => ⟨Nat.le_refl _, h⟩⟩

theorem Grows.trans (k k₁ k₂ : Credits) (h : k.Grows k₁) (h₁ : k₁.Grows k₂) : k.Grows k₂ := by
  refine ⟨h₁.budget.trans h.budget, fun hk => ?_⟩
  obtain ⟨hu, hb⟩ := h.used hk
  have hn := h₁.used (by rwa [h.budget])
  rw [h.budget] at hn
  exact ⟨Nat.le_trans hu hn.1, hn.2⟩

/-- A fresh budget is not exceeded. -/
theorem Grows.used_le {n : UInt64} (h : (new n).Grows k) : k.used.toNat ≤ n.toNat :=
  (h.used (Nat.zero_le _)).2

theorem toNat_remaining (h : k.used.toNat ≤ k.budget.toNat) :
    k.remaining.toNat = k.budget.toNat - k.used.toNat :=
  UInt64.toNat_sub_of_le _ _ (UInt64.le_iff_toNat_le.2 h)

/-- A sum that fits into a budget is exact. -/
theorem toNat_add_of_le {m n b : UInt64} (h : m.toNat + n.toNat ≤ b.toNat) :
    (m + n).toNat = m.toNat + n.toNat := by
  have hb := b.toNat_lt
  rw [UInt64.toNat_add, Nat.mod_eq_of_lt (by omega)]

/-- What a charge comes to. -/
theorem charge_cases (h : k.used.toNat ≤ k.budget.toNat) (c : Category) (n : UInt64) :
    k.budget.toNat < k.used.toNat + n.toNat ∧
        k.charge c n = .error (.outOfCredits n k.remaining k.budget) ∨
      k.used.toNat + n.toNat ≤ k.budget.toNat ∧
        k.charge c n = .ok { k with used := k.used + n, profile := k.profile.add c n } := by
  have hr := toNat_remaining h
  rw [charge]
  by_cases hn : k.remaining < n
  · rw [if_pos hn]
    rw [UInt64.lt_iff_toNat_lt] at hn
    exact .inl ⟨by omega, rfl⟩
  · rw [if_neg hn]
    rw [UInt64.lt_iff_toNat_lt] at hn
    exact .inr ⟨by omega, rfl⟩

/-- A charge adds to what is used, and leaves the budget. -/
theorem charge_grows {c : Category} {n : UInt64} (h : k.charge c n = .ok k') : k.Grows k' := by
  have hb : k'.budget = k.budget := by
    rw [charge] at h
    split at h
    · cases h
    · cases h
      rfl
  refine ⟨hb, fun hk => ?_⟩
  rcases charge_cases hk c n with ⟨_, he⟩ | ⟨hn, he⟩ <;> rw [he] at h <;> cases h
  rw [toNat_add_of_le hn]
  omega

/-- A nested execution is paid for in full if that fits into the budget. -/
theorem absorb_eq {n : UInt64} (h : k.used.toNat + n.toNat ≤ k.budget.toNat) (p : Profile) :
    k.absorb n p = { k with used := k.used + n, profile := k.profile.merge p } := by
  have hb := k.budget.toNat_lt
  have hs : addSat k.used n = k.used + n := by
    apply UInt64.toNat_inj.1
    rw [toNat_addSat (by rw [ceiling]; omega), toNat_add_of_le h]
  rw [absorb, hs, if_pos]
  rw [UInt64.le_iff_toNat_le, toNat_add_of_le h]
  exact h

/-- What a callee has used adds to what its caller has used. -/
theorem absorb_grows (k : Credits) (n : UInt64) (p : Profile) : k.Grows (k.absorb n p) := by
  refine ⟨rfl, fun hk => ?_⟩
  rw [absorb]
  dsimp only
  split
  · next hn => exact ⟨le_addSat k.used n, UInt64.le_iff_toNat_le.1 hn⟩
  · exact ⟨hk, Nat.le_refl _⟩

end Credits

/-! ### Budgets of machines -/

/-- A machine begins in the same way with any budget: it fails before it takes the
    budget, or after that, or it is running. -/
theorem Machine.begin_budget (m : Machine) (e : Entry) (args : List Value) (n n' : UInt64) :
    (∃ a, m.begin e args n = (.error a, m) ∧ m.begin e args n' = (.error a, m)) ∨
      (∃ a, ∃ k : Machine, k.status = m.status ∧
        m.begin e args n = (.error a, { k with credits := .new n }) ∧
        m.begin e args n' = (.error a, { k with credits := .new n' })) ∨
      ∃ k : Machine, k.status = .running ∧
        m.begin e args n = (.ok (), { k with credits := .new n }) ∧
        m.begin e args n' = (.ok (), { k with credits := .new n' }) := by
  unfold begin
  cases m.program with
  | none => exact .inl ⟨_, rfl, rfl⟩
  | some p =>
    dsimp only
    cases target p args.length e with
    | error a => exact .inl ⟨_, rfl, rfl⟩
    | ok t =>
      dsimp only
      split
      · exact .inl ⟨_, rfl, rfl⟩
      · refine .inr ?_
        cases m.memory.push 0 t.frame with
        | error a => exact .inl ⟨_, { m with program := some p, frames := [] }, rfl, rfl, rfl⟩
        | ok k =>
          dsimp only
          cases passArgs 0 1 args k with
          | error a =>
            exact .inl ⟨_, { m with program := some p, frames := [], memory := k }, rfl, rfl, rfl⟩
          | ok k =>
            exact .inr ⟨{ m with
              program := some p
              memory := k
              frames := [⟨0, t.frame, 0, none⟩]
              next := t.offset
              offset := t.offset
              returns := t.returns
              status := .running }, rfl, rfl, rfl⟩

/-- A machine that begins goes on; one that is refused does not. -/
theorem Exec.begin_apply {σ : Type} (x : Exec σ Unit) (e : Entry) (args : List Value) (n : UInt64)
    (m : Machine) (s : σ) :
    (do begin e args n; x) m s =
      match m.begin e args n with
      | (.ok (), m) => x m s
      | (.error a, m) => ((.error a, m), s) := by
  rw [bind_apply, show begin e args n m s = (m.begin e args n, s) from rfl]
  rcases m.begin e args n with ⟨_ | _, m⟩ <;> rfl

/-! ### Allowances -/

/-- How the credits of two machines are related that are the same otherwise. -/
structure Allowance where
  Rel : Credits → Credits → Prop
  /-- The aborts of the second execution after which the first may go on. -/
  Off : Credits → Abort → Credits → Prop
  /-- The aborts that the executions may end with. -/
  May : Abort → Abort → Prop
  refl : ∀ e, May e e
  on : ∀ {k k₁ e k'}, Off k e k' → k.Grows k₁ → Off k₁ e k'
  /-- Both machines can make a charge, or neither can, or the second cannot. -/
  charge : ∀ {k k'}, Rel k k' → ∀ c n,
    match k.charge c n, k'.charge c n with
    | .ok j, .ok j' => Rel j j'
    | .ok j, .error e => Off j e k'
    | .error e, .error e' => May e e'
    | .error _, .ok _ => False
  /-- Before a machine begins, it has no credits. -/
  fresh : ∀ {k k'}, Rel k k' → Rel (.new 0) (.new 0)
  renew : ∀ {k k'}, Rel k k' → Rel (.new k.remaining) (.new k'.remaining)
  absorb : ∀ {k k' j j'}, Rel k k' → Rel j j' → j.used.toNat ≤ k.remaining.toNat →
    j'.used.toNat ≤ k'.remaining.toNat →
    Rel (k.absorb j.used j.profile) (k'.absorb j'.used j'.profile)
  absorb_off : ∀ {k k' j e j'}, Rel k k' → Off j e j' → (Credits.new k.remaining).Grows j →
    (Credits.new k'.remaining).Grows j' →
    Off (k.absorb j.used j.profile) e (k'.absorb j'.used j'.profile)

namespace Allowance

variable {σ α : Type} {A : Allowance}

open Exec

/-- The machines are the same but for their credits, and so are the storages. -/
def coupling (A : Allowance) (σ : Type) : Coupling σ σ where
  Rel m s m' t := m' = { m with credits := m'.credits } ∧ A.Rel m.credits m'.credits ∧ s = t
  Lost _ := False
  Pays := Credits.Grows
  Off k e k' _ := A.Off k e k'
  May := A.May
  own _ := A.refl _
  refl := Credits.Grows.refl
  trans := Credits.Grows.trans
  on := A.on
  alike := by
    rintro m m' s t ⟨hm, _, _⟩
    exact ⟨m.constantOnly, m'.credits, hm⟩
  update := by
    rintro m m' s t ⟨hm, hk, rfl⟩ _ _ _ _ _ _
    refine ⟨?_, hk, rfl⟩
    rw [hm]

/-- Both executions look at one machine, but for its credits. -/
theorem tied_get {f g : Machine → Exec σ α}
    (hf : ∀ (m : Machine) k, (A.coupling σ).Tied (f m) (g { m with credits := k })) :
    (A.coupling σ).Tied (do f (← get)) (do g (← get)) where
  lost _ _ h := h.elim
  first m s := (hf m m.credits).first m s
  second m s := (hf m m.credits).second m s
  ends {m s m' t} h := by
    have hm := h.1
    have he := (hf m m'.credits).ends h
    rwa [← hm] at he

theorem tied_guard (o : Opcode) : (A.coupling σ).Tied (guard o) (guard o) := by
  refine tied_get fun m k => ?_
  dsimp only
  split
  · exact .throw rfl
  · exact .pure _

theorem spends_charge (c : Category) (n : UInt64) :
    Spends Credits.Grows (Exec.charge c n : Exec σ Unit) := by
  intro m s
  rw [charge_apply]
  cases hc : m.credits.charge c n with
  | ok k => exact Credits.charge_grows hc
  | error e => exact Credits.Grows.refl _

/-- A charge that can be paid out of both budgets leaves both as they should be. -/
theorem tied_charge (c : Category) (n : UInt64) :
    (A.coupling σ).Tied (Exec.charge c n) (Exec.charge c n) where
  lost _ _ h := h.elim
  first := spends_charge c n
  second := spends_charge c n
  ends {m s m' t} h := by
    obtain ⟨hm, hk, rfl⟩ := h
    have hc := A.charge hk c n
    rw [charge_apply, charge_apply]
    generalize m.credits.charge c n = x at hc ⊢
    generalize m'.credits.charge c n = y at hc ⊢
    cases x <;> cases y
    · exact .error hc ⟨hm, hk, rfl⟩
    · exact hc.elim
    · exact .off hc
    · refine .ok ⟨?_, hc, rfl⟩
      rw [hm]

/-- A caller spends what its callee does, and has its budget back. -/
theorem spends_delegate (x : Exec σ Unit) (c : Address) (p : Program) (n : UInt64)
    (args : List Value) : Spends Credits.Grows (delegate x c p n args) := by
  intro m s
  rw [delegate_apply]
  generalize (do begin (.index n) args m.credits.remaining; x) (callee m c p) s = a
  exact Credits.absorb_grows _ _ _

/-- A callee has what is left to its caller, so the allowance of one is that of the other. -/
theorem tied_delegate {x y : Exec σ Unit} (hx : (A.coupling σ).Tied x y)
    (c : Address) (p : Program) (n : UInt64) (args : List Value) :
    (A.coupling σ).Tied (delegate x c p n args) (delegate y c p n args) where
  lost _ _ h := h.elim
  first := spends_delegate x c p n args
  second := spends_delegate y c p n args
  ends {m s m' t} h := by
    obtain ⟨hm, hk, rfl⟩ := h
    have hc : callee m' c p = callee m c p := by rw [hm]; rfl
    rw [delegate_apply, delegate_apply, hc, begin_apply, begin_apply]
    rcases (callee m c p).begin_budget (.index n) args m.credits.remaining m'.credits.remaining with
      ⟨a, ha, ha'⟩ | ⟨a, k, _, ha, ha'⟩ | ⟨k, _, ha, ha'⟩ <;> rw [ha, ha']
    · -- The machine that is called has not got its budget.
      refine .error (A.refl a) ⟨?_, A.absorb hk (A.fresh hk) (Nat.zero_le _) (Nat.zero_le _), rfl⟩
      rw [hm]
    · refine .error (A.refl a) ⟨?_, A.absorb hk (A.renew hk) (Nat.zero_le _) (Nat.zero_le _), rfl⟩
      rw [hm]
    · have he := hx.ends (show (A.coupling σ).Rel { k with credits := .new m.credits.remaining } s
        { k with credits := .new m'.credits.remaining } s from ⟨rfl, A.renew hk, rfl⟩)
      have hg := hx.first { k with credits := .new m.credits.remaining } s
      have hg' := hx.second { k with credits := .new m'.credits.remaining } s
      dsimp only at hg hg' ⊢
      generalize x { k with credits := .new m.credits.remaining } s = a at he hg ⊢
      generalize y { k with credits := .new m'.credits.remaining } s = b at he hg' ⊢
      cases he with
      | lost h => exact h.elim
      | off h => exact .off (A.absorb_off hk h hg hg')
      | ok h =>
        obtain ⟨hn, hj, rfl⟩ := h
        rw [hn]
        refine .ok ⟨?_, A.absorb hk hj hg.used_le hg'.used_le, rfl⟩
        rw [hm]
      | error he h =>
        obtain ⟨hn, hj, rfl⟩ := h
        refine .error he ⟨?_, A.absorb hk hj hg.used_le hg'.used_le, rfl⟩
        rw [hm]

/-- Requests are tied, as the machines make them to one storage. -/
theorem asks (A : Allowance) (b : Backend σ) : (A.coupling σ).Asks b b where
  charge := tied_charge
  delegate := tied_delegate
  guard := tied_guard
  ask r := by
    have hs : Spends Credits.Grows (ask b r) := by
      intro m s
      rw [ask_apply]
      generalize b r s = a
      rcases a with ⟨_ | _, t⟩ <;> exact .refl _
    refine ⟨fun _ _ h => h.elim, hs, hs, fun {m s m' t} h => ?_⟩
    obtain ⟨hm, hk, rfl⟩ := h
    rw [ask_apply, ask_apply]
    generalize b r s = a
    rcases a with ⟨_ | _, t⟩
    · exact .error (A.refl _) ⟨hm, hk, rfl⟩
    · exact .ok ⟨hm, hk, rfl⟩

end Allowance

end CreditMachine
