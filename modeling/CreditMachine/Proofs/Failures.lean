import CreditMachine.Proofs.Atomicity
import CreditMachine.Proofs.Conservation
import CreditMachine.Proofs.Retry

/-!
# Failures of the store

A store may fail at any request. Whoever has made the request stops, and so does whoever
waits for it: no layer of storage and no machine makes another request, and the error goes
up unchanged, through all machines that are nested in each other.

What is told apart of a store is whether all requests were answered so far, or the last
one has failed (`Watch`). An overlay and a meter hand a failure on (`Watch.overlay`,
`Watch.meter`), a machine aborts with it (`Watch.call`), and a call ends with it, in its
attempt or in its commit. So a call ends with a failure of the store exactly if some request
has failed; it was the last one, and it is its error that is told (`Call.execute_reports`).
-/

namespace CreditMachine

variable {σ α : Type}

/-- What is told apart of the states of a backend. -/
structure Watch (σ : Type) where
  /-- All requests were answered. -/
  Sound : σ → Prop
  /-- The last request has failed with an error, and all before were answered. -/
  Struck : StorageError → σ → Prop

namespace Watch

variable (W : Watch σ)

/-- How a request may end: with an answer, with a refusal, or with a failure that ends a
    whole execution. -/
inductive Reports : Except StorageError α × σ → Prop
  | ok {a s} : W.Sound s → Reports (.ok a, s)
  | refused {e s} : e.isFatal = false → W.Sound s → Reports (.error e, s)
  | failed {e s} : e.isFatal → W.Struck e s → Reports (.error e, s)

/-- There is a layer over the backend. -/
def under (φ : Type) : Watch (φ × σ) where
  Sound x := W.Sound x.2
  Struck e x := W.Struck e x.2

variable {W} {b : Backend σ}

/-! ### Layers -/

section Layers

variable (h : ∀ r s, r.mutates = false → W.Sound s → W.Reports (b r s))

include h

/-- A read through an overlay fails as the read below it does, if there is one. -/
theorem fetch (o : Overlay) (p : Place) {s : σ} (hs : W.Sound s) :
    (W.under Overlay).Reports (o.fetch b p s) := by
  have hr := h (.read p.owner p.cell) s rfl hs
  rw [Overlay.fetch]
  cases o.known? p with
  | some v => exact .ok hs
  | none =>
    generalize b (.read p.owner p.cell) s = x at hr ⊢
    cases hr with
    | ok ht => exact .ok ht
    | refused he ht => exact .refused he ht
    | failed he ht => exact .failed he ht

/-- An overlay makes requests that read only, at most one for each that it is asked. -/
theorem overlay (r : Request) (x : Overlay × σ) (hx : (W.under Overlay).Sound x) :
    (W.under Overlay).Reports (Overlay.backend b r x) := by
  obtain ⟨o, s⟩ := x
  cases r with
  | read c i => exact fetch h o _ hx
  | write | erase | eraseEntry => exact .ok hx
  | allocate c i =>
    have hf := fetch h o ⟨c, .root i⟩ hx
    rw [Overlay.backend]
    generalize o.fetch b ⟨c, .root i⟩ s = y at hf ⊢
    cases hf with
    | @ok a _ ht => cases a <;> exact .ok ht
    | refused he ht => exact .refused he ht
    | failed he ht => exact .failed he ht
  | holders c v =>
    have hr := h (.holders c v) s rfl hx
    rw [Overlay.backend]
    generalize b (.holders c v) s = y at hr ⊢
    cases hr with
    | ok ht => exact .ok ht
    | refused he ht => exact .refused he ht
    | failed he ht => exact .failed he ht

end Layers

/-! ### Machines -/

variable (W) in
/-- An execution aborts with a failure of the store, or there was none. -/
def lockstep : Lockstep σ σ where
  Rel s t := s = t ∧ W.Sound t
  Lost _ := False
  Off e t := ∃ f, e = .storage f ∧ f.isFatal ∧ W.Struck f t
  May e := ¬e.isFatal
  own := ne_true_of_eq_false

section Machines

variable (h : ∀ r s, W.Sound s → W.Reports (b r s))

include h

/-- A meter hands on what fails below, and reports what it refuses itself. -/
theorem meter (r : Request) (x : Meter × σ) (hx : (W.under Meter).Sound x) :
    (W.under Meter).Reports (Meter.backend b r x) := by
  obtain ⟨m, s⟩ := x
  have hr := h r s hx
  rw [Meter.backend]
  split
  · exact .refused rfl hx
  · generalize b r s = y at hr ⊢
    cases hr with
    | ok ht => exact .ok ht
    | refused he ht => exact .refused he ht
    | failed he ht => exact .failed he ht

/-- Requests of a machine are tied: it aborts with what fails. -/
theorem asks : W.lockstep.coupling.Asks b b where
  charge := Lockstep.tied_charge
  guard := Lockstep.tied_guard
  delegate := Lockstep.tied_delegate
  ask r := by
    refine ⟨fun _ _ h => h, fun _ _ => trivial, fun _ _ => trivial, ?_⟩
    rintro m s _ _ ⟨rfl, rfl, hs⟩
    have hr := h r s hs
    rw [Exec.ask_apply]
    generalize b r s = x at hr ⊢
    cases hr with
    | ok ht => exact .ok ⟨rfl, rfl, ht⟩
    | @refused e _ he ht =>
      refine .error ⟨rfl, ne_true_of_eq_false ?_⟩ ⟨rfl, rfl, ht⟩
      cases e with
      | readOnly => rfl
      | backend | decode => exact he
    | @failed e _ he ht =>
      refine .off ⟨e, ?_, he, ht⟩
      cases e with
      | readOnly => cases he
      | backend | decode => rfl

/-- A machine aborts as soon as the store fails, with the error, and so do the machines that
    wait for it; it does not abort like that otherwise. -/
theorem call (m : Machine) (e : Entry) (args : List Value) (n : UInt64) {s : σ}
    (hs : W.Sound s) :
    let x := m.call b e args n s
    (∃ f, x.1.1 = .error (.storage f) ∧ f.isFatal ∧ W.Struck f x.2) ∨
      (∀ a, x.1.1 = .error a → a.isFatal = false) ∧ W.Sound x.2 := by
  have hx := Lockstep.call (asks h).writes.joins m e args n
    (show W.lockstep.Rel s s from ⟨rfl, hs⟩)
  dsimp only
  generalize m.call b e args n s = x at hx
  cases hx with
  | lost h => exact h.elim
  | off h =>
    obtain ⟨f, rfl, hf, ht⟩ := h
    exact .inl ⟨f, rfl, hf, ht⟩
  | ok h => exact .inr ⟨fun _ h => (nomatch h), h.2.2⟩
  | error he h =>
    refine .inr ⟨?_, h.2.2⟩
    rintro _ ⟨⟩
    exact eq_false_of_ne_true he.2

end Machines

end Watch

/-- An attempt is ended by a failure of the store, or there was none. -/
theorem Call.attempt_reports {W : Watch σ} {b : Backend σ}
    (h : ∀ r s, r.mutates = false → W.Sound s → W.Reports (b r s)) (q : Call) (p : Program)
    (registry : Registry) {s : σ} (hs : W.Sound s) :
    let x := q.attempt b p registry s
    (∃ e, x.1.fault? = some e ∧ W.Struck e x.2) ∨ x.1.fault? = none ∧ W.Sound x.2 := by
  have hx := Watch.call (Watch.meter (Watch.overlay h)) (q.machine p registry) q.entry q.args
    q.credits (s := (.new q.readOnly, .empty, s)) hs
  dsimp only
  rw [attempt]
  generalize (q.machine p registry).call _ q.entry q.args q.credits _ = x at hx
  obtain ⟨⟨r, m⟩, k, o, t⟩ := x
  rcases hx with ⟨f, rfl, hf, ht⟩ | ⟨ha, ht⟩
  · exact .inl ⟨f, if_pos hf, ht⟩
  · exact .inr ⟨Attempt.fault?_eq_none ha, ht⟩

/-! ### Notes -/

/-- Whether there was no answer. -/
def Exchange.failed : Exchange → Bool
  | .request _ (.error _) | .lookup _ _ (.error _) => true
  | .request _ (.ok _) | .lookup _ _ (.ok _) => false

/-- What notes tell about failures. -/
def Watch.noted (σ : Type) : Watch (List Exchange × σ) where
  Sound t := ∀ y ∈ t.1, y.failed = false
  Struck e t := ∃ l r, t.1 = l ++ [.request r (.error e)] ∧ ∀ y ∈ l, y.failed = false

namespace Backend

variable {b : Backend σ}

/-- A request is noted, with its answer or its failure. -/
theorem noting_cases (r : Request) {t : List Exchange × σ} (ht : (Watch.noted σ).Sound t) :
    (∃ a t', b.noting r t = (.ok a, t') ∧ (Watch.noted σ).Sound t') ∨
      ∃ e t', b.noting r t = (.error e, t') ∧ (b r t.2).1 = .error e ∧
        (Watch.noted σ).Struck e t' := by
  obtain ⟨n, s⟩ := t
  rw [noting]
  generalize b r s = x
  obtain ⟨e | a, s⟩ := x
  · exact .inr ⟨e, _, rfl, rfl, n, r, rfl, ht⟩
  · refine .inl ⟨a, _, rfl, fun y hy => ?_⟩
    rcases List.mem_append.1 hy with hy | hy
    · exact ht y hy
    · rw [List.mem_singleton.1 hy]
      rfl

/-- What reads fails with errors only that end a whole execution. -/
theorem noting_reports (hb : ∀ r s e, r.mutates = false → (b r s).1 = .error e → e.isFatal)
    (r : Request) (t : List Exchange × σ) (hr : r.mutates = false)
    (ht : (Watch.noted σ).Sound t) : (Watch.noted σ).Reports (b.noting r t) := by
  rcases noting_cases r ht with ⟨a, t', ha, ht⟩ | ⟨e, t', ha, he, ht⟩ <;> rw [ha]
  · exact .ok ht
  · exact .failed (hb r _ e hr he) ht

/-- Requests that are made in turn stop at the first failure. -/
theorem replay_reports (l : List Request) {t : List Exchange × σ}
    (ht : (Watch.noted σ).Sound t) :
    let x := b.noting.replay l t
    (∃ e, x.1 = .error e ∧ (Watch.noted σ).Struck e x.2) ∨
      x.1 = .ok () ∧ (Watch.noted σ).Sound x.2 := by
  induction l generalizing t with
  | nil => exact .inr ⟨rfl, ht⟩
  | cons r l ih =>
    dsimp only
    rw [replay]
    rcases noting_cases (b := b) r ht with ⟨a, t', ha, ht⟩ | ⟨e, t', ha, _, ht⟩ <;> rw [ha]
    · exact ih ht
    · exact .inl ⟨e, rfl, ht⟩

/-- Requests that are made in turn come to the same with notes as without. -/
theorem replay_noting (l : List Request) (n : List Exchange) (s : σ) :
    b.replay l s = ((b.noting.replay l (n, s)).1, (b.noting.replay l (n, s)).2.2) := by
  induction l generalizing n s with
  | nil => rfl
  | cons r l ih =>
    rw [replay, replay, noting]
    generalize b r s = x
    obtain ⟨_ | _, s⟩ := x
    · rfl
    · exact ih _ s

end Backend

/-! ### A sample -/

/-- Fails the requests for which `true` is scheduled. -/
def Faults.scheduled (e : StorageError) : Request → List Bool → Option StorageError × List Bool
  | _, [] => (none, [])
  | _, true :: g => (some e, g)
  | _, false :: g => (none, g)

/-- A ledger that fails by a schedule fails with what the schedule says. -/
theorem Faults.isFatal_scheduled {e f : StorageError} (he : e.isFatal) {r : Request}
    (hr : r.mutates = false) {s : List Bool × Ledger}
    (h : (Faults.backend (scheduled e) Ledger.backend r s).1 = .error f) : f.isFatal := by
  have hl (l : Ledger) : (Ledger.backend r l).1 ≠ .error f := by
    cases r with
    | read | holders => exact fun h => nomatch h
    | write | erase | eraseEntry | allocate => cases hr
  obtain ⟨_ | ⟨_ | _, g⟩, l⟩ := s
  · exact absurd h (hl l)
  · exact absurd h (hl l)
  · cases h
    exact he

/-! ### Calls -/

namespace Call

variable {b : Backend σ} {p : Program} {registry : Registry} {c : Settings} {q : Call}

/-- A call is settled with notes as without. -/
theorem settle_noting (a : Attempt) (n : List Exchange) (s : σ) :
    q.settle b c a s =
      ((q.settle b.noting c a (n, s)).1, (q.settle b.noting c a (n, s)).2.2) := by
  rw [settle, settle]
  split
  · rfl
  split
  · rw [Overlay.commit, Overlay.commit, Backend.replay_noting a.overlay.changes n s]
    generalize b.noting.replay a.overlay.changes (n, s) = x
    obtain ⟨_ | _, _, _⟩ := x <;> rfl
  · rfl

/-- A call does not see that notes are taken. -/
theorem execute_noting (n : List Exchange) (s : σ) :
    q.execute b p registry c s =
      ((q.execute b.noting p registry c (n, s)).1,
        (q.execute b.noting p registry c (n, s)).2.2) := by
  rw [execute, execute]
  split
  · rcases Lockstep.attempt (agree_noted b).reads (fun _ _ h => h) q p registry
      (show (noted σ).Rel s (n, s) from rfl) with h | ⟨ha, hs⟩
    · exact h.elim
    · rw [show q.attempt b p registry s = (_, _) from Prod.ext ha hs.symm]
      exact settle_noting _ _ _
  · rfl

/-- What an attempt is ended by ends the call; otherwise it may be the commit that fails. -/
theorem settle_reports {a : Attempt} {t : List Exchange × σ}
    (ha : (∃ e, a.fault? = some e ∧ (Watch.noted σ).Struck e t) ∨
      a.fault? = none ∧ (Watch.noted σ).Sound t) :
    let x := q.settle b.noting c a t
    (∃ e, x.1 = .error (.backend e) ∧ (Watch.noted σ).Struck e x.2) ∨
      (∃ o, x.1 = .ok o) ∧ (Watch.noted σ).Sound x.2 := by
  dsimp only
  rw [settle]
  rcases ha with ⟨e, ha, ht⟩ | ⟨ha, ht⟩ <;> rw [ha]
  · exact .inl ⟨e, rfl, ht⟩
  · dsimp only
    split
    · have hr := Backend.replay_reports (b := b) a.overlay.changes ht
      rw [Overlay.commit]
      generalize b.noting.replay a.overlay.changes t = x at hr
      obtain ⟨x, t⟩ := x
      rcases hr with ⟨e, rfl, ht⟩ | ⟨rfl, ht⟩
      · exact .inl ⟨e, rfl, ht⟩
      · exact .inr ⟨⟨_, rfl⟩, ht⟩
    · exact .inr ⟨⟨_, rfl⟩, ht⟩

/-- A call whose entry is there ends with a failure of the store exactly if the store has
    failed at some request, in the attempt or in the commit. That was the last request that
    was made, all before were answered, and the call ends with its error. -/
theorem execute_reports (he : q.entry.isIn p)
    (hb : ∀ r s e, r.mutates = false → (b r s).1 = .error e → e.isFatal) (s : σ) :
    let x := q.execute b.noting p registry c ([], s)
    q.execute b p registry c s = (x.1, x.2.2) ∧
      ((∃ e, x.1 = .error (.backend e)) ↔ ∃ y ∈ x.2.1, y.failed) ∧
      ∀ e, x.1 = .error (.backend e) →
        ∃ l r, x.2.1 = l ++ [.request r (.error e)] ∧ ∀ y ∈ l, y.failed = false := by
  have hr := settle_reports (b := b) (c := c) (q := q) <|
    attempt_reports (Backend.noting_reports hb) q p registry (s := ([], s)) fun _ h => nomatch h
  refine ⟨execute_noting [] s, ?_⟩
  rw [execute_of_isIn he]
  generalize q.settle b.noting c _ _ = x at hr
  obtain ⟨x, t⟩ := x
  rcases hr with ⟨e, rfl, l, r, hl, hy⟩ | ⟨⟨o, rfl⟩, ht⟩
  · refine ⟨⟨fun _ => ⟨.request r (.error e), ?_, rfl⟩, fun _ => ⟨e, rfl⟩⟩, ?_⟩
    · rw [hl]
      exact List.mem_append_right _ (List.mem_singleton_self _)
    · rintro _ ⟨⟩
      exact ⟨l, r, hl, hy⟩
  · refine ⟨⟨fun ⟨_, h⟩ => (nomatch h), fun ⟨y, hy, hf⟩ => ?_⟩, fun _ h => nomatch h⟩
    rw [ht y hy] at hf
    cases hf

/-- Contract 7 reads its cell, and the search after it fails. Contract 5, which has called it,
    does nothing any more. -/
theorem execute_reports_relay :
    let e := StorageError.backend "disk unavailable"
    let b := Faults.backend (Faults.scheduled e) Ledger.backend
    let q : Call := ⟨⟨5⟩, .index 0, [], 2000, false, false⟩
    let g : Registry := fun c => if c = ⟨7⟩ then some Machine.relay else none
    let x := q.execute b.noting Machine.relay g .usual ([], [false, true], .sample)
    (x.1 = .error (.backend e) ∧ x.2.1.length = 2) ∧
      q.execute b Machine.relay g .usual ([false, true], .sample) = (x.1, x.2.2) ∧
      (∃ y ∈ x.2.1, y.failed) ∧
      ∃ l r, x.2.1 = l ++ [.request r (.error e)] ∧ ∀ y ∈ l, y.failed = false := by
  intro e b q g
  have hx : (q.execute b.noting Machine.relay g .usual ([], [false, true], .sample)).1 =
    .error (.backend e) := by decide +kernel
  have hb (r : Request) (s : List Bool × Ledger) (f : StorageError) (hr : r.mutates = false)
      (hf : (b r s).1 = .error f) : f.isFatal :=
    Faults.isFatal_scheduled (e := e) rfl hr hf
  obtain ⟨hn, hi, hl⟩ :=
    @execute_reports _ b Machine.relay g .usual q (by decide) hb ([false, true], .sample)
  exact ⟨⟨hx, by decide +kernel⟩, hn, hi.1 ⟨e, hx⟩, hl e hx⟩

end Call

end CreditMachine
