import CreditMachine.Proofs.Comparison

/-!
# Couplings

A *coupling* relates the machines and storages of two executions. The executions
are *tied* (`Coupling.Tied`) if they keep what is related related, and end in the
same way: both go on with the same value, or both abort for like reasons. There
are two ways out: the storage of the second execution may be *lost*, and some
aborts of it may be *off* the record. Nothing is said then, but what the credits of
the two machines tell, of which the first may go on to spend some.

Executions that are made of tied parts are tied, so a coupling compares executions
(`Coupling.comparison`). What it takes for instructions and runs to be tied is shown in
`CreditMachine.Proofs.Instructions`.
-/

namespace CreditMachine

/-- How two executions are related. -/
structure Coupling (σ τ : Type) where
  /-- Relates the machine and the storage of one execution to those of another. -/
  Rel : Machine → σ → Machine → τ → Prop
  /-- The storages of the second execution after which nothing is said. -/
  Lost : τ → Prop
  /-- How an execution may change the credits of its machine. -/
  Pays : Credits → Credits → Prop
  /-- The aborts of the second execution after which nothing else is said, between
      the credits of the first machine and those of the second. -/
  Off : Credits → Abort → Credits → τ → Prop
  /-- The aborts that the executions may end with. -/
  May : Abort → Abort → Prop
  /-- Machines abort for reasons of their own. -/
  own : ∀ {e}, e.isFatal = false → May e e
  refl : ∀ k, Pays k k
  trans : ∀ k k₁ k₂, Pays k k₁ → Pays k₁ k₂ → Pays k k₂
  /-- The first execution may go on after the second has stopped. -/
  on : ∀ {k k₁ e k' t}, Off k e k' t → Pays k k₁ → Off k₁ e k' t
  /-- Related machines differ at most in what they may do and what they may spend. -/
  alike : ∀ {m m' s t}, Rel m s m' t → ∃ q k, m' = { m with constantOnly := q, credits := k }
  /-- Machines that go on in the same way stay related. -/
  update : ∀ {m m' s t}, Rel m s m' t → ∀ memory frames next offset operands status,
    Rel { m with memory, frames, next, offset, operands, status } s
      { m' with memory, frames, next, offset, operands, status } t

namespace Exec

variable {σ α β : Type}

/-- What is done in turn: after an abort, nothing follows. -/
theorem bind_apply (x : Exec σ α) (f : α → Exec σ β) (m : Machine) (s : σ) :
    (x >>= f) m s =
      match x m s with
      | ((.ok a, m), s) => f a m s
      | ((.error e, m), s) => ((.error e, m), s) := by
  change ExceptT.bindCont f (x m s).1.1 (x m s).1.2 (x m s).2 = _
  rcases x m s with ⟨⟨_ | a, m⟩, s⟩ <;> rfl

/-- A request is answered by the backend, and changes nothing of the machine. -/
theorem ask_apply (b : Backend σ) (r : Request) (m : Machine) (s : σ) :
    ask b r m s =
      match b r s with
      | (.ok a, s) => ((.ok a, m), s)
      | (.error e, s) => ((.error (.ofStorage e), m), s) := rfl

/-- An abort marks the machine, and goes on. -/
theorem marked_apply (x : Exec σ Unit) (m : Machine) (s : σ) :
    marked x m s =
      match x m s with
      | ((.ok (), m), s) => ((.ok (), m), s)
      | ((.error e, m), s) => ((.error e, { m with status := .aborted }), s) := rfl

/-- A charge that is refused leaves the credits as they were. -/
theorem charge_apply (c : Category) (n : UInt64) (m : Machine) (s : σ) :
    charge c n m s =
      match m.credits.charge c n with
      | .ok k => ((.ok (), { m with credits := k }), s)
      | .error e => ((.error e, m), s) := by
  change (check (m.credits.charge c n) >>= fun k => modify fun m => { m with credits := k }) m s = _
  rw [bind_apply]
  cases m.credits.charge c n <;> rfl

/-- However `x` ends, it changes the credits of its machine as `P` tells. -/
def Spends (P : Credits → Credits → Prop) (x : Exec σ α) : Prop :=
  ∀ m s, P m.credits (x m s).1.2.credits

/-- What is spent in turn adds up, as far as the relation is transitive. -/
theorem Spends.bind {P : Credits → Credits → Prop} (hP : ∀ k k₁ k₂, P k k₁ → P k₁ k₂ → P k k₂)
    {x : Exec σ α} {f : α → Exec σ β} (hx : Spends P x) (hf : ∀ a, Spends P (f a)) :
    Spends P (x >>= f) := by
  intro m s
  have h := hx m s
  rw [bind_apply]
  generalize x m s = a at h ⊢
  rcases a with ⟨⟨_ | a, m⟩, s⟩
  · exact h
  · exact hP _ _ _ h (hf a m s)

/-- A mark is free. -/
theorem Spends.marked {P : Credits → Credits → Prop} {x : Exec σ Unit} (hx : Spends P x) :
    Spends P (marked x) := by
  intro m s
  have h := hx m s
  rw [marked_apply]
  generalize x m s = a at h ⊢
  rcases a with ⟨⟨_ | _, m⟩, s⟩ <;> exact h

end Exec

namespace Coupling

variable {σ τ α β : Type}

/-! ### Aborts of the machine -/

/-- If `x` is an abort, then not because the store has failed. -/
def Own (x : Except Abort α) : Prop := ∀ e, x = .error e → e.isFatal = false

theorem Own.ok (v : α) : Own (.ok v) := fun _ h => nomatch h

theorem Own.error {e : Abort} (he : e.isFatal = false) : Own (.error e : Except Abort α) := by
  rintro _ ⟨⟩
  exact he

/-- An abort of an instruction is one of its own, for it is none of the storage. -/
theorem own_of_plain {x : Except Abort α} (hx : Plain x) : Own x :=
  fun e he => Abort.isFatal_of_isPlain (hx e he)

/-! ### Ties -/

variable (C : Coupling σ τ)

/-- How two executions end that are tied. -/
inductive Ends : (Except Abort α × Machine) × σ → (Except Abort α × Machine) × τ → Prop
  | lost {a b} : C.Lost b.2 → Ends a b
  | off {a e m' t} : C.Off a.1.2.credits e m'.credits t → Ends a ((.error e, m'), t)
  | ok {v m s m' t} : C.Rel m s m' t → Ends ((.ok v, m), s) ((.ok v, m'), t)
  | error {e e' m s m' t} :
    C.May e e' → C.Rel m s m' t → Ends ((.error e, m), s) ((.error e', m'), t)

/-- Two executions are tied. -/
structure Tied (x : Exec σ α) (y : Exec τ α) : Prop where
  lost : ∀ m t, C.Lost t → C.Lost (y m t).2
  first : Exec.Spends C.Pays x
  second : Exec.Spends C.Pays y
  ends : ∀ {m s m' t}, C.Rel m s m' t → C.Ends (x m s) (y m' t)

variable {C}

namespace Tied

variable {x : Exec σ α} {y : Exec τ α} {f : α → Exec σ β} {g : α → Exec τ β}

theorem pure (v : α) : C.Tied (pure v) (pure v) :=
  ⟨fun _ _ h => h, fun m _ => C.refl m.credits, fun m _ => C.refl m.credits, .ok⟩

theorem throw {e : Abort} (he : e.isFatal = false) :
    C.Tied (throw e : Exec σ α) (throw e : Exec τ α) :=
  ⟨fun _ _ h => h, fun m _ => C.refl m.credits, fun m _ => C.refl m.credits, .error (C.own he)⟩

/-- Executions that are tied can be followed by others that are. -/
theorem bind (hx : C.Tied x y) (hf : ∀ a, C.Tied (f a) (g a)) : C.Tied (x >>= f) (y >>= g) where
  lost m t ht := by
    have h := hx.lost m t ht
    rw [Exec.bind_apply]
    generalize y m t = b at h ⊢
    rcases b with ⟨⟨_ | a, m⟩, t⟩
    · exact h
    · exact (hf a).lost m t h
  first := hx.first.bind C.trans fun a => (hf a).first
  second := hx.second.bind C.trans fun a => (hf a).second
  ends {m s m' t} h := by
    have h := hx.ends h
    rw [Exec.bind_apply, Exec.bind_apply]
    generalize x m s = a at h ⊢
    generalize y m' t = b at h ⊢
    cases h with
    | lost h =>
      -- What comes after cannot win back a storage that is lost.
      rcases b with ⟨⟨_ | v, m⟩, t⟩
      · exact .lost h
      · exact .lost ((hf v).lost m t h)
    | off h =>
      -- The first execution may go on, but only to spend more.
      rcases a with ⟨⟨_ | v, m⟩, s⟩
      · exact .off h
      · exact .off (C.on h ((hf v).first m s))
    | ok h => exact (hf _).ends h
    | error he h => exact .error he h

end Tied

/-- Executions that are made of tied parts are tied. -/
def comparison (C : Coupling σ τ) : Comparison σ τ where
  Holds := C.Tied
  pure := .pure
  throw he := .throw (Abort.isFatal_of_isPlain he)
  bind := .bind

namespace Tied

variable {x : Exec σ α} {y : Exec τ α}

/-- What depends on nothing but a value is tied, if it is an abort that an instruction can bring
    about. -/
theorem check {r : Except Abort α} (hr : Plain r) : C.Tied (Exec.check r) (Exec.check r) :=
  C.comparison.check hr

/-- Executions that look at their machines are tied if what they see does not
    matter. -/
theorem get {f : Machine → Exec σ α} {g : Machine → Exec τ α}
    (hf : ∀ (m : Machine) q k, C.Tied (f m) (g { m with constantOnly := q, credits := k })) :
    C.Tied (do f (← get)) (do g (← get)) where
  lost m t ht := (hf m m.constantOnly m.credits).lost m t ht
  first m s := (hf m m.constantOnly m.credits).first m s
  second m t := (hf m m.constantOnly m.credits).second m t
  ends {m s m' t} h := by
    obtain ⟨q, k, rfl⟩ := C.alike h
    exact (hf m q k).ends h

/-- Machines that go on in the same way. -/
theorem modify {f : Machine → Machine} (hc : ∀ m, (f m).credits = m.credits)
    (hf : ∀ {m s q k t}, C.Rel m s { m with constantOnly := q, credits := k } t →
      C.Rel (f m) s (f { m with constantOnly := q, credits := k }) t) :
    C.Tied (modify f : Exec σ Unit) (modify f : Exec τ Unit) where
  lost _ _ h := h
  first m _ := (hc m).symm ▸ C.refl m.credits
  second m _ := (hc m).symm ▸ C.refl m.credits
  ends h := by
    obtain ⟨q, k, rfl⟩ := C.alike h
    exact .ok (hf h)

/-- Marks are tied if what they mark is. -/
theorem marked {x : Exec σ Unit} {y : Exec τ Unit} (hx : C.Tied x y) :
    C.Tied (Exec.marked x) (Exec.marked y) where
  lost m t ht := by
    have h := hx.lost m t ht
    rw [Exec.marked_apply]
    generalize y m t = b at h ⊢
    rcases b with ⟨⟨_ | _, m⟩, t⟩ <;> exact h
  first := hx.first.marked
  second := hx.second.marked
  ends {m s m' t} h := by
    have h := hx.ends h
    rw [Exec.marked_apply, Exec.marked_apply]
    generalize x m s = a at h ⊢
    generalize y m' t = b at h ⊢
    cases h with
    | lost h => rcases b with ⟨⟨_ | _, m⟩, t⟩ <;> exact .lost h
    | off h => rcases a with ⟨⟨_ | _, m⟩, s⟩ <;> exact .off h
    | ok h => exact .ok h
    | error he h =>
      -- Both machines are marked.
      obtain ⟨q, k, rfl⟩ := C.alike h
      exact .error he (C.update h _ _ _ _ _ _)

end Tied

end Coupling

end CreditMachine
