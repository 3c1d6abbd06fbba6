import CreditMachine.Proofs.Instructions
import CreditMachine.Proofs.Register

/-!
# Lockstep

One machine is executed over two storages that are related. If requests to
related storages have the same answers and keep them related, then the whole
execution is the same on both, with all calls nested in it
(`Lockstep.call`).

The first use of it is a backend that takes notes of all requests
(`Backend.noting`): an execution does not see them (`Machine.call_noting`).
-/

namespace CreditMachine

/-! ### Executions that nest -/

namespace Exec

variable {σ α : Type}

/-- The machine that executes a call of another contract. -/
def callee (m : Machine) (c : Address) (p : Program) : Machine :=
  (Machine.new c m.constantOnly m.registry (m.depth + m.frames.length)).load p

theorem get_apply (f : Machine → Exec σ α) (m : Machine) (s : σ) :
    (do f (← get)) m s = f m m s := rfl

theorem onMachine_apply (k : Machine) (x : Exec σ α) (m : Machine) (s : σ) :
    onMachine k x m s = match x k s with | ((r, k), u) => ((.ok (r, k), m), u) := rfl

/-- A call of another contract is a run of another machine, for which this one
    pays. -/
theorem delegate_apply (x : Exec σ Unit) (c : Address) (p : Program) (n : UInt64)
    (args : List Value) (m : Machine) (s : σ) :
    delegate x c p n args m s =
      match (do begin (.index n) args m.credits.remaining; x) (callee m c p) s with
      | ((r, k), u) =>
        ((r.map fun _ => k.result.getD .nil,
          { m with credits := m.credits.absorb k.credits.used k.credits.profile }), u) := by
  rw [delegate, get_apply, bind_apply]
  dsimp only
  rw [onMachine_apply, callee]
  -- The machine pays however the other one ends; only then the abort goes on.
  generalize (do begin (.index n) args m.credits.remaining; x : Exec σ Unit) _ s = a
  rcases a with ⟨⟨_ | _, k⟩, u⟩ <;> rfl

end Exec

/-- How the storages of two executions of one machine are related. -/
structure Lockstep (σ τ : Type) where
  /-- The storages that are related. -/
  Rel : σ → τ → Prop
  /-- The storages of the second execution after which nothing is said. -/
  Lost : τ → Prop
  /-- The aborts of the second execution after which nothing is said. -/
  Off : Abort → τ → Prop
  /-- The aborts that both executions may end with. -/
  May : Abort → Prop
  own : ∀ {e}, e.isFatal = false → May e

namespace Lockstep

variable {σ τ α : Type}

open Exec Coupling

/-- A machine that cannot begin says so by an abort of its own. -/
theorem own_begin (m : Machine) (e : Entry) (args : List Value) (budget : UInt64) :
    Own (m.begin e args budget).1 := by
  rw [Machine.begin]
  split
  · exact .error rfl
  split
  · next h => exact .error (own_of_plain (.target _ _ _) _ h)
  split
  · exact .error rfl
  dsimp only
  split
  · next h => exact .error (own_of_plain (.push _ _ _) _ h)
  split
  · next h => exact .error (own_of_plain (.passArgs _ _ _ _) _ h)
  · exact .ok _

/-- The machines are the same. -/
def coupling (A : Lockstep σ τ) : Coupling σ τ where
  Rel m s m' t := m = m' ∧ A.Rel s t
  Lost := A.Lost
  Pays _ _ := True
  Off _ e _ t := A.Off e t
  May e e' := e = e' ∧ A.May e
  own h := ⟨rfl, A.own h⟩
  refl _ := trivial
  trans _ _ _ _ _ := trivial
  on h _ := h
  alike := by
    rintro m _ _ _ ⟨rfl, _⟩
    exact ⟨m.constantOnly, m.credits, rfl⟩
  update := by
    rintro m _ _ _ ⟨rfl, h⟩ _ _ _ _ _ _
    exact ⟨rfl, h⟩

variable {A : Lockstep σ τ}

/-- What depends on nothing but the machine is tied. -/
theorem tied_of_pure (f : Machine → Except Abort α × Machine) (hf : ∀ m, Own (f m).1) :
    A.coupling.Tied (ExceptT.mk fun m s => (f m, s)) (ExceptT.mk fun m t => (f m, t)) where
  lost _ _ h := h
  first _ _ := trivial
  second _ _ := trivial
  ends {m s m' t} h := by
    obtain ⟨rfl, h⟩ := h
    have hf := hf m
    change A.coupling.Ends (f m, s) (f m, t)
    generalize f m = a at hf ⊢
    rcases a with ⟨_ | v, m⟩
    · exact .error ⟨rfl, A.own (hf _ rfl)⟩ ⟨rfl, h⟩
    · exact .ok ⟨rfl, h⟩

theorem tied_begin (e : Entry) (args : List Value) (budget : UInt64) :
    A.coupling.Tied (begin e args budget) (begin e args budget) :=
  tied_of_pure (fun m => m.begin e args budget) fun m => own_begin m e args budget

/-- Both executions look at one machine. -/
theorem tied_get {f : Machine → Exec σ α} {g : Machine → Exec τ α}
    (hf : ∀ m, A.coupling.Tied (f m) (g m)) :
    A.coupling.Tied (do f (← get)) (do g (← get)) where
  lost m t h := (hf m).lost m t h
  first _ _ := trivial
  second _ _ := trivial
  ends {m s m' t} h := by
    obtain ⟨rfl, h⟩ := h
    exact (hf m).ends ⟨rfl, h⟩

theorem tied_charge (c : Category) (n : UInt64) :
    A.coupling.Tied (charge c n) (charge c n) where
  lost m t h := by
    rw [charge_apply]
    cases m.credits.charge c n <;> exact h
  first _ _ := trivial
  second _ _ := trivial
  ends {m s m' t} h := by
    obtain ⟨rfl, h⟩ := h
    have hc := own_of_plain (.charge m.credits c n)
    rw [charge_apply, charge_apply]
    generalize m.credits.charge c n = x at hc ⊢
    cases x with
    | ok k => exact .ok ⟨rfl, h⟩
    | error e => exact .error ⟨rfl, A.own (hc e rfl)⟩ ⟨rfl, h⟩

theorem tied_guard (o : Opcode) : A.coupling.Tied (guard o) (guard o) := by
  refine tied_get fun m => ?_
  split
  · exact .throw rfl
  · exact .pure _

/-- By the induction over nested calls: what the callees execute is tied, so the calls are. -/
theorem tied_delegate {x : Exec σ Unit} {y : Exec τ Unit} (hx : A.coupling.Tied x y)
    (c : Address) (p : Program) (n : UInt64) (args : List Value) :
    A.coupling.Tied (delegate x c p n args) (delegate y c p n args) where
  lost m t h := by
    have h := ((tied_begin (.index n) args m.credits.remaining).bind fun _ => hx).lost
      (callee m c p) t h
    rw [delegate_apply]
    generalize (do begin (.index n) args m.credits.remaining; y) (callee m c p) t = b at h ⊢
    exact h
  first _ _ := trivial
  second _ _ := trivial
  ends {m s m' t} h := by
    obtain ⟨rfl, h⟩ := h
    have h := ((tied_begin (.index n) args m.credits.remaining).bind fun _ => hx).ends
      (show A.coupling.Rel (callee m c p) s (callee m c p) t from ⟨rfl, h⟩)
    rw [delegate_apply, delegate_apply]
    generalize (do begin (.index n) args m.credits.remaining; x) (callee m c p) s = a at h ⊢
    generalize (do begin (.index n) args m.credits.remaining; y) (callee m c p) t = b at h ⊢
    -- The machine that was called is given up: what it leaves are its result,
    -- its costs and the storage.
    cases h with
    | lost h => exact .lost h
    | off h => exact .off h
    | ok h =>
      obtain ⟨rfl, h⟩ := h
      exact .ok ⟨rfl, h⟩
    | error he h =>
      obtain ⟨rfl, h⟩ := h
      exact .error he ⟨rfl, h⟩

/-- Requests to related storages have the same answer and keep them related. -/
structure Agree (A : Lockstep σ τ) (b : Backend σ) (d : Backend τ) : Prop where
  lost : ∀ r t, A.Lost t → A.Lost (d r t).2
  answer : ∀ r {s t}, A.Rel s t → A.Lost (d r t).2 ∨
    (b r s).1 = (d r t).1 ∧ (∀ e, (d r t).1 = .error e → A.May (.ofStorage e)) ∧
      A.Rel (b r s).2 (d r t).2

variable {b : Backend σ} {d : Backend τ}

/-- Storages that agree answer every request of two tied machines alike. -/
theorem Agree.asks (h : A.Agree b d) : A.coupling.Asks b d where
  charge := tied_charge
  guard := tied_guard
  delegate := tied_delegate
  ask r := by
    refine ⟨fun m t ht => ?_, fun _ _ => trivial, fun _ _ => trivial, fun {m s m' t} hs => ?_⟩
    · have ht := h.lost r t ht
      rw [ask_apply]
      generalize d r t = b at ht ⊢
      rcases b with ⟨_ | _, t⟩ <;> exact ht
    · obtain ⟨rfl, hs⟩ := hs
      have ha := h.answer r hs
      rw [ask_apply, ask_apply]
      generalize b r s = a at ha ⊢
      generalize d r t = b at ha ⊢
      obtain ⟨x, s⟩ := a
      obtain ⟨y, t⟩ := b
      rcases ha with ht | ⟨rfl, he, hs⟩
      · cases y <;> exact .lost ht
      · cases x with
        | ok a => exact .ok ⟨rfl, hs⟩
        | error e => exact .error ⟨rfl, he e rfl⟩ ⟨rfl, hs⟩

/-- Runs in lockstep end alike. -/
theorem run (h : A.coupling.Joins b d) (m : Machine) {s : σ} {t : τ} (hs : A.Rel s t) :
    A.coupling.Ends (m.run b s) (m.run d t) := by
  have hr : A.coupling.Tied (Exec.run b) (Exec.run d) := by
    refine tied_get fun m => ?_
    dsimp only
    split
    · exact .throw rfl
    · exact h.steps _
  exact hr.ends ⟨rfl, hs⟩

/-- Calls in lockstep end alike. -/
theorem call (h : A.coupling.Joins b d) (m : Machine) (e : Entry) (args : List Value)
    (budget : UInt64) {s : σ} {t : τ} (hs : A.Rel s t) :
    A.coupling.Ends (m.call b e args budget s) (m.call d e args budget t) := by
  have ho := own_begin m e args budget
  rw [Machine.call, Machine.call]
  generalize m.begin e args budget = a at ho ⊢
  rcases a with ⟨_ | _, m⟩
  · -- No storage is asked before the machine begins.
    exact .error ⟨rfl, A.own (ho _ rfl)⟩ ⟨rfl, hs⟩
  · exact run h m hs

/-- An execution on a storage that satisfies `I`. -/
def keeping (I : σ → Prop) : Lockstep σ σ where
  Rel s t := s = t ∧ I t
  Lost _ := False
  Off _ _ := False
  May _ := True
  own _ := trivial

end Lockstep

/-- What requests keep, executions keep. -/
theorem Machine.call_keeps {σ : Type} {b : Backend σ} {I : σ → Prop}
    (hb : ∀ r s, I s → I (b r s).2) (m : Machine) (e : Entry) (args : List Value)
    (budget : UInt64) {s : σ} (hs : I s) : I (m.call b e args budget s).2 := by
  have ha : (Lockstep.keeping I).Agree b b := by
    refine ⟨fun _ _ h => h, ?_⟩
    rintro r s _ ⟨rfl, hs⟩
    exact .inr ⟨rfl, fun _ _ => trivial, rfl, hb r s hs⟩
  have h := Lockstep.call ha.asks.writes.joins m e args budget
    (show (Lockstep.keeping I).Rel s s from ⟨rfl, hs⟩)
  generalize m.call b e args budget s = x at h ⊢
  cases h with
  | lost h => exact h.elim
  | off h => exact h.elim
  | ok h => exact h.2.2
  | error _ h => exact h.2.2

/-! ### Notes -/

/-- Notes all requests to the backend `b`, with the answers. -/
def Backend.noting {σ : Type} (b : Backend σ) : Backend (List Exchange × σ) := fun r (l, s) =>
  let (a, s) := b r s
  (a, l ++ [.request r a], s)

/-- Notes are taken of the second execution only. -/
def noted (σ : Type) : Lockstep σ (List Exchange × σ) where
  Rel s t := t.2 = s
  Lost _ := False
  Off _ _ := False
  May _ := True
  own _ := trivial

/-- Notes that are taken do not change the answers. -/
theorem agree_noted {σ : Type} (b : Backend σ) : (noted σ).Agree b b.noting := by
  refine ⟨fun _ _ h => h, ?_⟩
  rintro r _ ⟨l, s⟩ rfl
  exact .inr ⟨rfl, fun _ _ => trivial, rfl⟩

/-- An execution does not see that notes are taken. -/
theorem Machine.call_noting {σ : Type} (b : Backend σ) (m : Machine) (e : Entry)
    (args : List Value) (budget : UInt64) (l : List Exchange) (s : σ) :
    m.call b e args budget s =
      ((m.call b.noting e args budget (l, s)).1, (m.call b.noting e args budget (l, s)).2.2) := by
  have h := Lockstep.call (agree_noted b).asks.writes.joins m e args budget
    (show (noted σ).Rel s (l, s) from rfl)
  generalize m.call b e args budget s = x at h ⊢
  generalize m.call b.noting e args budget (l, s) = y at h ⊢
  cases h with
  | lost h => exact h.elim
  | off h => exact h.elim
  | ok h =>
    obtain ⟨rfl, rfl⟩ := h
    rfl
  | error he h =>
    obtain ⟨rfl, _⟩ := he
    obtain ⟨rfl, rfl⟩ := h
    rfl

end CreditMachine
