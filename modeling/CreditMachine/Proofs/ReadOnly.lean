import CreditMachine.Proofs.Conservation
import CreditMachine.Proofs.Session

/-!
# Machines that may only read

A machine that may only read executes as one that may change storage, up to the first
instruction that would: there it aborts. So do the machines that it calls, which may do no
more than it. Until then, both read the same from storages of which reading reveals no
difference (`Coupling.reading`).

Hence no request that mutates is made by a machine that may only read (`Machine.call_reads`),
and a call that is tried out read-only has the outcome that it will have, or would have
changed something (`Call.execute_preview`).
-/

namespace CreditMachine

/-- What a machine may do does not matter for how an execution begins. -/
theorem Machine.begin_constantOnly (m : Machine) (q : Bool) (e : Entry) (args : List Value)
    (n : UInt64) : ∃ r, ∃ k : Machine, k.constantOnly = m.constantOnly ∧
      m.begin e args n = (r, k) ∧ ({ m with constantOnly := q } : Machine).begin e args n =
        (r, { k with constantOnly := q }) := by
  obtain ⟨_, _, _, _, p?, memory, _, _, _, _, _, _⟩ := m
  unfold begin
  dsimp only
  cases p? with
  | none => exact ⟨_, _, rfl, rfl, rfl⟩
  | some p =>
    dsimp only
    cases target p args.length e with
    | error a => exact ⟨_, _, rfl, rfl, rfl⟩
    | ok t =>
      dsimp only
      split
      · exact ⟨_, _, rfl, rfl, rfl⟩
      cases memory.push 0 t.frame with
      | error a => exact ⟨_, _, rfl, rfl, rfl⟩
      | ok k =>
        dsimp only
        cases passArgs 0 1 args k <;> exact ⟨_, _, rfl, rfl, rfl⟩

namespace Coupling

open Exec

variable {σ τ : Type}

/-- The machine of the second execution may only read; that of the first may do so if `q` says
    so. Where only the second one has aborted for this, nothing else is said. -/
def reading (q : Bool) (R : σ → τ → Prop) : Coupling σ τ where
  Rel m s m' t := m.constantOnly = q ∧ m' = { m with constantOnly := true } ∧ R s t
  Lost _ := False
  Pays _ _ := True
  Off _ e _ _ := q = false ∧ ∃ o, e = .readOnlyViolation o
  May e e' := e = e'
  own _ := rfl
  refl _ := trivial
  trans _ _ _ _ _ := trivial
  on h _ := h
  alike := by
    rintro m _ _ _ ⟨_, rfl, _⟩
    exact ⟨true, m.credits, rfl⟩
  update := by
    rintro m _ _ _ ⟨hq, rfl, h⟩ _ _ _ _ _ _
    exact ⟨hq, rfl, h⟩

variable {q : Bool} {R : σ → τ → Prop}

/-- Executions are tied if they end alike. -/
theorem reading_of_ends {α : Type} {x : Exec σ α} {y : Exec τ α}
    (h : ∀ m s t, m.constantOnly = q → R s t →
      (reading q R).Ends (x m s) (y { m with constantOnly := true } t)) :
    (reading q R).Tied x y where
  lost _ _ h := h.elim
  first _ _ := trivial
  second _ _ := trivial
  ends := by
    rintro m s _ t ⟨hq, rfl, hs⟩
    exact h m s t hq hs

theorem reading_charge (c : Category) (n : UInt64) :
    (reading q R).Tied (charge c n) (charge c n) := by
  refine reading_of_ends fun m s t hq hs => ?_
  rw [charge_apply, charge_apply]
  dsimp only
  cases m.credits.charge c n with
  | ok k => exact .ok ⟨hq, rfl, hs⟩
  | error e => exact .error rfl ⟨hq, rfl, hs⟩

/-- What is guarded is not done by the second machine. -/
theorem reading_guard (o : Opcode) (x : Exec σ Unit) (y : Exec τ Unit) :
    (reading q R).Tied (do guard o; x) (do guard o; y) := by
  refine reading_of_ends fun m s t hq hs => ?_
  have hg : (do guard o; y) { m with constantOnly := true } t =
    ((.error (.readOnlyViolation o.mnemonic), { m with constantOnly := true }), t) := rfl
  rw [hg]
  cases q with
  | false => exact .off ⟨rfl, _, rfl⟩
  | true =>
    have hg : (do guard o; x) m s = ((.error (.readOnlyViolation o.mnemonic), m), s) := by
      rw [bind_apply, Exec.guard, get_apply, if_pos hq]
      rfl
    rw [hg]
    exact .error rfl ⟨hq, rfl, hs⟩

theorem reading_begin (e : Entry) (args : List Value) (n : UInt64) :
    (reading q R).Tied (begin e args n) (begin e args n) := by
  refine reading_of_ends fun m s t hq hs => ?_
  obtain ⟨r, k, hk, hb, hb'⟩ := m.begin_constantOnly true e args n
  change (reading q R).Ends (m.begin e args n, s) (({ m with constantOnly := true } : Machine).begin
    e args n, t)
  rw [hb, hb']
  cases r with
  | error a => exact .error rfl ⟨hk.trans hq, rfl, hs⟩
  | ok u => exact .ok ⟨hk.trans hq, rfl, hs⟩

/-- A callee may do what its caller may do, so its run is tied like that of the caller. -/
theorem reading_delegate {x : Exec σ Unit} {y : Exec τ Unit} (hx : (reading q R).Tied x y)
    (c : Address) (p : Program) (n : UInt64) (args : List Value) :
    (reading q R).Tied (delegate x c p n args) (delegate y c p n args) := by
  refine reading_of_ends fun m s t hq hs => ?_
  -- The machine that is called may do what its caller may do.
  have h := ((reading_begin (.index n) args m.credits.remaining).bind fun _ => hx).ends
    (show (reading q R).Rel (callee m c p) s (callee { m with constantOnly := true } c p) t from
      ⟨hq, rfl, hs⟩)
  rw [delegate_apply, delegate_apply]
  generalize (do begin (.index n) args m.credits.remaining; x) (callee m c p) s = a at h ⊢
  generalize (do begin (.index n) args m.credits.remaining; y) _ t = b at h ⊢
  cases h with
  | lost h => exact h.elim
  | off h => exact .off h
  | ok h =>
    obtain ⟨_, rfl, h⟩ := h
    exact .ok ⟨hq, rfl, h⟩
  | error he h =>
    obtain ⟨_, rfl, h⟩ := h
    exact .error he ⟨hq, rfl, h⟩

/-- Reading related storages has the same answers and keeps them related. -/
def ReadsAlike (R : σ → τ → Prop) (b : Backend σ) (d : Backend τ) : Prop :=
  ∀ r s t, r.mutates = false → R s t → (b r s).1 = (d r t).1 ∧ R (b r s).2 (d r t).2

variable {b : Backend σ} {d : Backend τ}

theorem reading_looks (h : ReadsAlike R b d) : (reading q R).comparison.Looks b d where
  get hf := .get fun _ _ _ => hf _ _ rfl
  charge := reading_charge
  ask r hr := by
    refine reading_of_ends fun m s t hq hs => ?_
    obtain ⟨ha, hs⟩ := h r s t hr hs
    rw [ask_apply, ask_apply]
    generalize b r s = x at ha hs
    generalize d r t = y at ha hs
    obtain ⟨x, s⟩ := x
    obtain ⟨_, t⟩ := y
    obtain rfl : x = _ := ha
    cases x with
    | ok a => exact .ok ⟨hq, rfl, hs⟩
    | error e => exact .error rfl ⟨hq, rfl, hs⟩

/-- Instructions that read are tied; those that do not are not executed by the second machine. -/
theorem reading_joins (h : ReadsAlike R b d) : (reading q R).Joins b d where
  charge := reading_charge
  load := (reading_looks h).load
  search := (reading_looks h).search
  store o _ _ := reading_guard o _ _
  mutate o _ _ _ _ _ := reading_guard o _ _
  delegate := reading_delegate

/-- Calls of a machine that may only read, and of one that need not. -/
theorem reading_call (h : ReadsAlike R b d) (m : Machine) (hq : m.constantOnly = q) (e : Entry)
    (args : List Value) (n : UInt64) {s : σ} {t : τ} (hs : R s t) :
    (reading q R).Ends (m.call b e args n s)
      (({ m with constantOnly := true } : Machine).call d e args n t) := by
  have hr : (reading q R).Tied (run b) (run d) := by
    refine reading_of_ends fun m s t hq hs => ?_
    rw [run, run, get_apply, get_apply]
    dsimp only
    split
    · exact .error rfl ⟨hq, rfl, hs⟩
    · exact ((reading_joins h).steps _).ends ⟨hq, rfl, hs⟩
  rw [Machine.call_eq, Machine.call_eq]
  exact ((reading_begin e args n).bind fun _ => hr).ends ⟨hq, rfl, hs⟩

end Coupling

/-! ### Requests of a machine that may only read -/

/-- An exchange with storage that is not about a change. -/
def Exchange.Reads (x : Exchange) : Prop :=
  ∃ r a, x = .request r a ∧ r.mutates = false

/-- A machine that may only read makes no request that mutates, however it ends; nor do the
    machines that it calls. The storage may be any. -/
theorem Machine.call_reads {σ : Type} (b : Backend σ) (m : Machine) (hm : m.constantOnly)
    (e : Entry) (args : List Value) (n : UInt64) (s : σ) :
    let x := m.call b.noting e args n ([], s)
    (∀ y ∈ x.2.1, y.Reads) ∧ m.call b e args n s = (x.1, x.2.2) := by
  dsimp only
  have hb : Coupling.ReadsAlike (fun s t => s = t ∧ ∀ y ∈ t.1, y.Reads) b.noting b.noting := by
    rintro r ⟨l, s⟩ _ hr ⟨rfl, hl⟩
    refine ⟨rfl, rfl, fun y hy => ?_⟩
    rcases List.mem_append.1 hy with hy | hy
    · exact hl y hy
    · exact ⟨r, _, List.mem_singleton.1 hy, hr⟩
  have h := Coupling.reading_call hb m hm e args n (s := ([], s)) ⟨rfl, fun _ h => nomatch h⟩
  refine ⟨?_, m.call_noting b e args n [] s⟩
  generalize m.call b.noting e args n ([], s) = x at h
  generalize ({ m with constantOnly := true } : Machine).call _ _ _ _ _ = y at h
  cases h with
  | lost h => exact h.elim
  | off h => cases h.1
  | ok h =>
    obtain ⟨_, _, rfl, h⟩ := h
    exact h
  | error _ h =>
    obtain ⟨_, _, rfl, h⟩ := h
    exact h

/-- A machine that calls itself has read by the time the change of a cell is refused there. -/
theorem Machine.call_reads_relay :
    let m := (Machine.new ⟨7⟩ true (fun _ => some relay) 0).load relay
    let x := m.call Ledger.backend.noting (.index 0) [] 2000 ([], .sample)
    m.constantOnly ∧ (x.1.1 = .error (.readOnlyViolation "ADD") ∧ x.2.1.length = 1) ∧
      ∀ y ∈ x.2.1, y.Reads :=
  ⟨rfl, by decide +kernel, (call_reads Ledger.backend _ rfl (.index 0) [] 2000 .sample).1⟩

/-! ### Trials -/

/-- Reading changes no more of an overlay than what it remembers. -/
theorem Overlay.backend_of_reads {σ : Type} {b : Backend σ} {r : Request} (hr : r.mutates = false)
    (o : Overlay) (s : σ) : (backend b r (o, s)).2.1.staged = o.staged ∧
      (backend b r (o, s)).2.1.wiped = o.wiped := by
  cases r with
  | read c x =>
    rw [backend, fetch]
    split
    · exact ⟨rfl, rfl⟩
    · split <;> exact ⟨rfl, rfl⟩
  | holders c v =>
    rw [backend]
    split <;> exact ⟨rfl, rfl⟩
  | write | erase | eraseEntry | allocate => cases hr

/-- Without changes, a commit makes no request. -/
theorem Overlay.commit_unchanged {σ : Type} (b : Backend σ) {o : Overlay} (hs : o.staged = [])
    (hw : o.wiped = ∅) (s : σ) : o.commit b s = (.ok 0, o.settled, s) := by
  rw [commit, changes, pending, hs, hw]
  rfl

/-- An abort is reported in the outcome. -/
theorem Attempt.report_of_error {a : Attempt} {q : Call} (c : Settings) {e : Abort}
    (h : a.ending = .error e) : ∃ r, (a.outcome q c).report = some r ∧ r.code = e.code := by
  rw [outcome, h]
  exact ⟨_, rfl, rfl⟩

namespace Call

variable {σ : Type}

/-- The storages of a call that is not read-only, and of one that is, as long as nothing has
    been changed. -/
def Trial (s t : Meter × Overlay × σ) : Prop :=
  ∃ u o k, o.staged = [] ∧ o.wiped = ∅ ∧ s = (⟨false, u⟩, o, k) ∧ t = (⟨true, u⟩, o, k)

/-- What an attempt has pending does not depend on how often the meter was asked. -/
theorem trial_readsAlike (b : Backend σ) : Coupling.ReadsAlike Trial
    (Meter.backend (Overlay.backend b)) (Meter.backend (Overlay.backend b)) := by
  rintro r _ _ hr ⟨u, o, k, hs, hw, rfl, rfl⟩
  obtain ⟨hs', hw'⟩ := Overlay.backend_of_reads (b := b) hr o k
  rw [hs] at hs'
  rw [hw] at hw'
  rw [Meter.backend, Meter.backend, hr]
  simp only [Bool.false_and, Bool.false_eq_true, if_false]
  generalize Overlay.backend b r (o, k) = x at hs' hw' ⊢
  obtain ⟨_ | a, o, k⟩ := x
  · exact ⟨rfl, u, o, k, hs', hw', rfl, rfl⟩
  · exact ⟨rfl, _, o, k, hs', hw', rfl, rfl⟩

/-- A call that is tried out read-only ends as it would, or it has tried to change something.
    If it has not, there is nothing to commit. -/
theorem attempt_preview (b : Backend σ) {q : Call} (hq : q.readOnly = false) (p : Program)
    (registry : Registry) (s : σ) :
    (∃ i, (({ q with readOnly := true } : Call).attempt b p registry s).1.ending =
        .error (.readOnlyViolation i)) ∨
      ∃ e m u o k, o.staged = [] ∧ o.wiped = ∅ ∧
        q.attempt b p registry s = (⟨e, m, ⟨false, u⟩, o⟩, k) ∧
        ({ q with readOnly := true } : Call).attempt b p registry s =
          (⟨e, { m with constantOnly := true }, ⟨true, u⟩, o⟩, k) := by
  have h := Coupling.reading_call (trial_readsAlike b) (q.machine p registry) hq q.entry q.args
    q.credits (s := (.new false, .empty, s)) (t := (.new true, .empty, s))
    ⟨.zero, .empty, s, rfl, rfl, rfl, rfl⟩
  have hm : ({ q with readOnly := true } : Call).machine p registry =
    { q.machine p registry with constantOnly := true } := rfl
  rw [attempt, attempt, hm, hq]
  dsimp only
  -- Only the case that the read-only machine stops at a guard is off; else both attempts end alike,
  -- and have changed nothing.
  generalize Machine.call _ _ _ _ _ (Meter.new false, _) = y at h ⊢
  generalize Machine.call _ _ _ _ _ (Meter.new true, _) = x at h ⊢
  cases h with
  | lost h => exact h.elim
  | off h =>
    obtain ⟨_, i, rfl⟩ := h
    exact .inl ⟨i, rfl⟩
  | ok h =>
    obtain ⟨_, rfl, u, o, k, hs, hw, rfl, rfl⟩ := h
    exact .inr ⟨_, _, u, o, k, hs, hw, rfl, rfl⟩
  | error he h =>
    obtain rfl := he
    obtain ⟨_, rfl, u, o, k, hs, hw, rfl, rfl⟩ := h
    exact .inr ⟨_, _, u, o, k, hs, hw, rfl, rfl⟩

/-- A call with an outcome has seen no fault of the store. -/
theorem fault?_of_settle_ok {b : Backend σ} {q : Call} {c : Settings} {a : Attempt} {s : σ}
    {o : Outcome} (h : (q.settle b c a s).1 = .ok o) : a.fault? = none := by
  rw [settle] at h
  cases ha : a.fault? with
  | none => rfl
  | some e =>
    rw [ha] at h
    cases h

/-- A trial is exact. If the outcome of a call that is read-only is not that it has tried to
    change something, then it is also the outcome of the call that is not, in every respect; and
    neither changes the ledger. -/
theorem execute_preview {q : Call} (hq : q.readOnly = false) (p : Program) (registry : Registry)
    (c : Settings) (l : Ledger) {o : Outcome}
    (ho : (({ q with readOnly := true } : Call).execute Ledger.backend p registry c l).1 = .ok o)
    (hr : ∀ r i, o.report = some r → r.code ≠ (Abort.readOnlyViolation i).code) :
    ({ q with readOnly := true } : Call).execute Ledger.backend p registry c l = (.ok o, l) ∧
      q.execute Ledger.backend p registry c l = (.ok o, l) := by
  have he : q.entry.isIn p := isIn_of_execute_ok (q := { q with readOnly := true }) ho
  have hl := q.attempt_below p registry l
  rw [execute_of_isIn (q := { q with readOnly := true }) he] at ho ⊢
  rw [execute_of_isIn he]
  obtain rfl := settle_ok ho
  rcases attempt_preview Ledger.backend hq p registry l with ⟨i, hi⟩ |
    ⟨e, m, u, k, l', hs, hw, hx, hy⟩
  · obtain ⟨r, ho, hc⟩ := Attempt.report_of_error (q := { q with readOnly := true }) c hi
    exact absurd hc (hr r i ho)
  · rw [hx] at hl
    obtain rfl : l' = l := hl
    rw [hy] at ho ⊢
    rw [hx]
    have hf : (⟨e, m, ⟨false, u⟩, k⟩ : Attempt).fault? = none := fault?_of_settle_ok ho
    refine ⟨settle_drop hf (Bool.and_false _), ?_⟩
    cases hc : q.commits ⟨e, m, ⟨false, u⟩, k⟩ with
    | true => exact settle_commit hc (Overlay.commit_unchanged _ hs hw _)
    | false => exact settle_drop hf hc

/-- A search is tried out. -/
theorem execute_preview_search :
    let q : Call := { sample with entry := .offset 2 1 }
    let x := ({ q with readOnly := true } : Call).execute Ledger.backend sampleProgram
      (fun _ => none) .usual .sample
    ∃ o, (o.result = some (.ref (.root 1)) ∧ o.report = none) ∧ x = (.ok o, .sample) ∧
      q.execute Ledger.backend sampleProgram (fun _ => none) .usual .sample = (.ok o, .sample) := by
  have hx : ((({ sample with entry := .offset 2 1, readOnly := true } : Call).execute
      Ledger.backend sampleProgram (fun _ => none) .usual .sample).1.toOption.map fun o =>
      (o.result, o.report)) = some (some (.ref (.root 1)), none) := by decide +kernel
  cases ho : (({ sample with entry := .offset 2 1, readOnly := true } : Call).execute
      Ledger.backend sampleProgram (fun _ => none) .usual .sample).1 with
  | error e =>
    rw [ho] at hx
    cases hx
  | ok o =>
    rw [ho] at hx
    obtain ⟨hr, hn⟩ := Prod.mk.inj (Option.some.inj hx)
    exact ⟨o, ⟨hr, hn⟩, execute_preview (q := { sample with entry := .offset 2 1 }) rfl
      sampleProgram (fun _ => none) .usual .sample ho fun r _ h => nomatch hn.symm.trans h⟩

end Call

end CreditMachine
