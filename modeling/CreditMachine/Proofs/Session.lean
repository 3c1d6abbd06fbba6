import CreditMachine.Proofs.Commit
import CreditMachine.Proofs.Lockstep
import CreditMachine.Proofs.Stack
import CreditMachine.Session.Call

/-!
# Sessions

A call that is not read-only is executed on an overlay behind a meter, and then
committed. It could as well be executed on the ledger itself: the outcome is the
same, and so is the ledger afterwards if the call succeeds
(`Call.execute_direct`).

The two executions run in lockstep as long as both storages show one register
(`Lockstep.shown`). A search may tell them apart only if two different values
that were stored or probed have one digest.

Attempts on two stores are in lockstep if what reads is: an overlay passes on
nothing else, and it and the meter do the same on both (`Lockstep.attempt`).
-/

namespace CreditMachine

/-! ### One register, shown twice -/

/-- A storage and a ledger show one register, with the values `V` and those that
    the notes mention. All is lost once two different ones have one digest. -/
def Lockstep.shown {σ : Type} (R : σ → Register → Prop) (V : Set Value) :
    Lockstep σ (List Exchange × Ledger) where
  Rel s t := ∃ h, R s h ∧ t.2.Shows h ∧ h.values ⊆ V ∪ valuesOf t.1
  Lost t := ¬(V ∪ valuesOf t.1).InjOn Value.digest
  Off _ _ := False
  May e := e.isFatal = false
  own := id

/-- Two answers to a request are the same where no two different values have one
    digest. -/
theorem Register.Answers.eq {h : Register} {r : Request} {a a' : r.Answer} (ha : h.Answers r a)
    (ha' : h.Answers r a') {V : Set Value} (hV : V.InjOn Value.digest) (hh : h.values ⊆ V)
    (hv : ∀ v ∈ (Exchange.request r (.ok a')).values, v ∈ V) : a = a' := by
  rw [ha'.eq_answer (Register.clear_of_injOn hV hh hv)]
  rw [ha'.values, ← ha.values] at hv
  exact ha.eq_answer (Register.clear_of_injOn hV hh hv)

/-- A storage answers as the ledger does that shows the same register, or digests collide. -/
theorem Lockstep.agree_shown {σ : Type} {b : Backend σ} {R : σ → Register → Prop}
    (hb : b.Shows R) (V : Set Value) : (shown R V).Agree b Ledger.backend.noting where
  lost r t ht hn := ht <| hn.mono <| Set.union_subset_union_right V <| by
    rw [Backend.noting, valuesOf_append]
    exact Set.subset_union_left
  answer r {s t} := by
    obtain ⟨n, l⟩ := t
    rintro ⟨h, hs, hl, hV⟩
    obtain ⟨a, s', he, ha, hs⟩ := hb.reply r hs
    obtain ⟨a', l', he', ha', hl⟩ := Ledger.backend_shows.reply r hl
    have hn : Ledger.backend.noting r (n, l) = (.ok a', n ++ [.request r (.ok a')], l') := by
      rw [Backend.noting, he']
    rw [he, hn]
    -- A search is answered by recency alone as long as digests tell values apart.
    by_cases hd : (V ∪ valuesOf (n ++ [.request r (.ok a')])).InjOn Value.digest
    · have hV : h.values ⊆ V ∪ valuesOf (n ++ [.request r (.ok a')]) := by
        rw [valuesOf_append]
        exact hV.trans (Set.union_subset_union_right V Set.subset_union_left)
      have hv : ∀ v ∈ (Exchange.request r (.ok a')).values,
          v ∈ V ∪ valuesOf (n ++ [.request r (.ok a')]) := by
        rw [valuesOf_append]
        exact fun v hv => .inr (.inr (by simpa [valuesOf] using hv))
      refine .inr ⟨?_, fun e he => (by cases he), h.after r, hs, hl,
        Register.values_after_subset ha' hV hv⟩
      rw [ha.eq ha' hd hV hv]
    · exact .inl hd

/-! ### Settlement -/

/-- An attempt without a fatal abort has seen no fault. -/
theorem Attempt.fault?_eq_none {a : Attempt} (h : ∀ e, a.ending = .error e → e.isFatal = false) :
    a.fault? = none := by
  rw [fault?]
  split
  · next e he => rw [if_neg (by simpa [Abort.isFatal] using h _ he)]
  · rfl

namespace Call

variable {σ : Type} {b : Backend σ} {c : Settings} {q : Call} {a : Attempt} {s t : σ}

/-- What is committed has not met a failure of the store. -/
theorem fault?_of_commits (hc : q.commits a) : a.fault? = none := by
  obtain ⟨hr, _⟩ := Bool.and_eq_true_iff.1 hc
  apply Attempt.fault?_eq_none
  intro e he
  rw [he] at hr
  cases hr

/-- Nothing is changed below by what is not committed. -/
theorem settle_snd (hc : q.commits a = false) : (q.settle b c a s).2 = s := by
  rw [settle]
  split
  · rfl
  · simp [hc]

/-- The changes of an attempt are dropped. -/
theorem settle_drop (ha : a.fault? = none) (hc : q.commits a = false) :
    q.settle b c a s = (.ok (a.outcome q c), s) := by
  rw [settle, ha]
  simp [hc]

/-- The changes of an attempt are committed. -/
theorem settle_commit (hc : q.commits a) {n : Nat} {o : Overlay}
    (ho : a.overlay.commit b s = (.ok n, o, t)) : q.settle b c a s = (.ok (a.outcome q c), t) := by
  rw [settle, fault?_of_commits hc]
  simp [hc, ho]

end Call

/-! ### Attempts in lockstep -/

namespace Lockstep

variable {σ τ α : Type}

/-- Two replies give one answer, and leave related storages. -/
inductive Same (A : Lockstep σ τ) :
    Except StorageError α × σ → Except StorageError α × τ → Prop
  | lost {x y} : A.Lost y.2 → Same A x y
  | ok {a s t} : A.Rel s t → Same A (.ok a, s) (.ok a, t)
  | error {e s t} : A.May (.ofStorage e) → A.Rel s t → Same A (.error e, s) (.error e, t)

/-- Both storages have a layer, in one state. -/
def under (φ : Type) (A : Lockstep σ τ) : Lockstep (φ × σ) (φ × τ) where
  Rel x y := x.1 = y.1 ∧ A.Rel x.2 y.2
  Lost y := A.Lost y.2
  Off e y := A.Off e y.2
  May := A.May
  own := A.own

/-- Requests that read related storages have the same answer and keep them related. -/
structure Reads (A : Lockstep σ τ) (b : Backend σ) (d : Backend τ) : Prop where
  lost : ∀ r t, A.Lost t → A.Lost (d r t).2
  same : ∀ r {s t}, r.mutates = false → A.Rel s t → A.Same (b r s) (d r t)

variable {A : Lockstep σ τ} {b : Backend σ} {d : Backend τ} {s : σ} {t : τ}

/-- Storages that agree reply the same, and stay related. -/
theorem Agree.same (h : A.Agree b d) (r : Request) (hs : A.Rel s t) : A.Same (b r s) (d r t) := by
  have hn := h.answer r hs
  generalize b r s = x at hn ⊢
  generalize d r t = y at hn ⊢
  obtain ⟨x, s⟩ := x
  obtain ⟨y, t⟩ := y
  rcases hn with ht | ⟨rfl, he, hs⟩
  · exact .lost ht
  · cases x with
    | ok a => exact .ok hs
    | error e => exact .error (he e rfl) hs

/-- Storages agree if they reply the same and stay related. -/
theorem Agree.of_same (hl : ∀ r t, A.Lost t → A.Lost (d r t).2)
    (h : ∀ r {s t}, A.Rel s t → A.Same (b r s) (d r t)) : A.Agree b d := by
  refine ⟨hl, fun r {s t} hs => ?_⟩
  have hn := h r hs
  generalize b r s = x at hn ⊢
  generalize d r t = y at hn ⊢
  cases hn with
  | lost ht => exact .inl ht
  | ok hs => exact .inr ⟨rfl, fun e he => (nomatch he), hs⟩
  | error hm hs =>
    refine .inr ⟨rfl, ?_, hs⟩
    rintro _ ⟨⟩
    exact hm

theorem Agree.reads (h : A.Agree b d) : A.Reads b d :=
  ⟨h.lost, fun r _ _ _ hs => h.same r hs⟩

theorem Reads.lost_fetch (h : A.Reads b d) (o : Overlay) (p : Place) (ht : A.Lost t) :
    A.Lost (o.fetch d p t).2.2 := by
  have hn := h.lost (.read p.owner p.cell) t ht
  rw [Overlay.fetch]
  cases o.known? p with
  | some v => exact ht
  | none =>
    generalize d (.read p.owner p.cell) t = y at hn ⊢
    obtain ⟨_ | _, t⟩ := y <;> exact hn

/-- One overlay over two storages asks both for the same cell, or neither. -/
theorem Reads.same_fetch (h : A.Reads b d) (o : Overlay) (p : Place) (hs : A.Rel s t) :
    (A.under Overlay).Same (o.fetch b p s) (o.fetch d p t) := by
  have hn := h.same (.read p.owner p.cell) rfl hs
  rw [Overlay.fetch, Overlay.fetch]
  cases o.known? p with
  | some v => exact .ok ⟨rfl, hs⟩
  | none =>
    generalize b (.read p.owner p.cell) s = x at hn ⊢
    generalize d (.read p.owner p.cell) t = y at hn ⊢
    cases hn with
    | lost ht => rcases y with ⟨_ | _, t⟩ <;> exact .lost ht
    | ok hs => exact .ok ⟨rfl, hs⟩
    | error he hs => exact .error he ⟨rfl, hs⟩

/-- An overlay passes on nothing but what reads. -/
theorem Reads.overlay (h : A.Reads b d) :
    (A.under Overlay).Agree (Overlay.backend b) (Overlay.backend d) := by
  refine .of_same ?_ ?_
  · rintro r ⟨o, t⟩ ht
    cases r with
    | read c x => exact h.lost_fetch o _ ht
    | allocate c i =>
      have hn := h.lost_fetch o ⟨c, .root i⟩ ht
      rw [Overlay.backend]
      generalize o.fetch d ⟨c, .root i⟩ t = y at hn ⊢
      rcases y with ⟨_ | _ | _, _, _⟩ <;> exact hn
    | holders c v =>
      have hn := h.lost (.holders c v) t ht
      rw [Overlay.backend]
      generalize d (.holders c v) t = y at hn ⊢
      obtain ⟨_ | _, t⟩ := y <;> exact hn
    | write | erase | eraseEntry => exact ht
  · rintro r ⟨o, s⟩ ⟨_, t⟩ ⟨rfl, hs⟩
    cases r with
    | read c x => exact h.same_fetch o _ hs
    | allocate c i =>
      -- A map is allocated in the overlay, after a look at what there is.
      have hn := h.same_fetch o ⟨c, .root i⟩ hs
      rw [Overlay.backend, Overlay.backend]
      generalize o.fetch b ⟨c, .root i⟩ s = x at hn ⊢
      generalize o.fetch d ⟨c, .root i⟩ t = y at hn ⊢
      cases hn with
      | lost ht => rcases y with ⟨_ | _ | _, _, _⟩ <;> exact .lost ht
      | @ok a x y hs =>
        obtain ⟨o, s⟩ := x
        obtain ⟨rfl, hs⟩ := hs
        cases a <;> exact .ok ⟨rfl, hs⟩
      | error he hs => exact .error he hs
    | holders c v =>
      -- What is found below is filtered by the overlay, which both have in one state.
      have hn := h.same (.holders c v) rfl hs
      rw [Overlay.backend, Overlay.backend]
      generalize b (.holders c v) s = x at hn ⊢
      generalize d (.holders c v) t = y at hn ⊢
      cases hn with
      | lost ht => rcases y with ⟨_ | _, t⟩ <;> exact .lost ht
      | ok hs => exact .ok ⟨rfl, hs⟩
      | error he hs => exact .error he ⟨rfl, hs⟩
    | write | erase | eraseEntry => exact .ok ⟨rfl, hs⟩

/-- A meter counts the same on both. -/
theorem Agree.meter (h : A.Agree b d) :
    (A.under Meter).Agree (Meter.backend b) (Meter.backend d) := by
  refine .of_same ?_ ?_
  · rintro r ⟨m, t⟩ ht
    have hn := h.lost r t ht
    rw [Meter.backend]
    split
    · exact ht
    · generalize d r t = y at hn ⊢
      obtain ⟨_ | _, t⟩ := y <;> exact hn
  · rintro r ⟨m, s⟩ ⟨_, t⟩ ⟨rfl, hs⟩
    have hn := h.same r hs
    rw [Meter.backend, Meter.backend]
    dsimp only
    by_cases hr : r.mutates && m.readOnly
    · rw [if_pos hr, if_pos hr]
      exact .error (A.own rfl) ⟨rfl, hs⟩
    · rw [if_neg hr, if_neg hr]
      generalize b r s = x at hn ⊢
      generalize d r t = y at hn ⊢
      cases hn with
      | lost ht => rcases y with ⟨_ | _, t⟩ <;> exact .lost ht
      | ok hs => exact .ok ⟨rfl, hs⟩
      | error he hs => exact .error he ⟨rfl, hs⟩

/-- Attempts on related storages are the same, and leave them related. -/
theorem attempt (h : A.Reads b d) (ho : ∀ e t, ¬A.Off e t) (q : Call) (p : Program)
    (registry : Registry) (hs : A.Rel s t) :
    A.Lost (q.attempt d p registry t).2 ∨
      (q.attempt b p registry s).1 = (q.attempt d p registry t).1 ∧
        A.Rel (q.attempt b p registry s).2 (q.attempt d p registry t).2 := by
  have he := call h.overlay.meter.asks.writes.joins (q.machine p registry) q.entry q.args q.credits
    (show ((A.under Overlay).under Meter).Rel (.new q.readOnly, .empty, s)
      (.new q.readOnly, .empty, t) from ⟨rfl, rfl, hs⟩)
  rw [Call.attempt, Call.attempt]
  generalize Machine.call _ _ _ _ _ (_, _, s) = x at he ⊢
  generalize Machine.call _ _ _ _ _ (_, _, t) = y at he ⊢
  cases he with
  | lost h => exact .inl h
  | off h => exact absurd h (ho _ _)
  | @ok _ _ x _ y h =>
    obtain ⟨k, o, s⟩ := x
    obtain ⟨_, _, t⟩ := y
    obtain ⟨rfl, rfl, rfl, h⟩ := h
    exact .inr ⟨rfl, h⟩
  | @error _ _ _ x _ y he h =>
    obtain ⟨k, o, s⟩ := x
    obtain ⟨_, _, t⟩ := y
    obtain ⟨rfl, _⟩ := he
    obtain ⟨rfl, rfl, rfl, h⟩ := h
    exact .inr ⟨rfl, h⟩

end Lockstep

/-- What reading keeps, attempts keep. -/
theorem Call.attempt_keeps {σ : Type} {b : Backend σ} {I : σ → Prop}
    (hb : ∀ r s, r.mutates = false → I s → I (b r s).2) (q : Call) (p : Program)
    (registry : Registry) {s : σ} (hs : I s) : I (q.attempt b p registry s).2 := by
  have hr : (Lockstep.keeping I).Reads b b := by
    refine ⟨fun _ _ h => h, ?_⟩
    rintro r s _ hr ⟨rfl, hs⟩
    have hn := hb r s hr hs
    generalize b r s = x at hn ⊢
    obtain ⟨_ | _, t⟩ := x
    · exact .error trivial ⟨rfl, hn⟩
    · exact .ok ⟨rfl, hn⟩
  rcases Lockstep.attempt hr (fun _ _ h => h) q p registry
    (show (Lockstep.keeping I).Rel s s from ⟨rfl, hs⟩) with h | ⟨_, _, h⟩
  · exact h.elim
  · exact h

/-- Reading leaves a ledger as it is. -/
theorem Ledger.backend_of_reads {r : Request} (hr : r.mutates = false) (l : Ledger) :
    (backend r l).2 = l := by
  cases r with
  | read | holders => rfl
  | write | erase | eraseEntry | allocate => cases hr

/-- An attempt changes nothing in a ledger. -/
theorem Call.attempt_below (q : Call) (p : Program) (registry : Registry) (l : Ledger) :
    (q.attempt Ledger.backend p registry l).2 = l := by
  refine attempt_keeps (I := (· = l)) ?_ q p registry rfl
  rintro r _ hr rfl
  exact Ledger.backend_of_reads hr _

/-! ### Direct execution -/

namespace Call

variable (q : Call) (p : Program) (registry : Registry) (l : Ledger)

/-- The call executed on the ledger itself. -/
def direct : (Except Abort Unit × Machine) × Ledger :=
  (q.machine p registry).call Ledger.backend q.entry q.args q.credits l

/-- What the direct execution asks the ledger. -/
def notes : List Exchange :=
  ((q.machine p registry).call Ledger.backend.noting q.entry q.args q.credits ([], l)).2.1

variable {p registry l} {q : Call}

/-- A program that makes a map, fills it, and searches what it holds. -/
def sampleProgram : Program where
  constants := #[]
  code := #[.of .newmap [.persistent 0], .of .sstore [.persistent 0, .imm 3, .imm 5],
    .of .find [.stack 0, .imm 5], .of .ret []]
  methods := #[⟨"main", 0, 1, 0, true⟩]
  lines := #[]

def sample : Call := ⟨⟨7⟩, .method "main", [], 1000, false, false⟩

/-- An attempt on an overlay is the direct execution, and the overlay then shows
    what the ledger would be. -/
theorem attempt_direct (hl : l.Reachable) (hq : q.readOnly = false)
    (hd : (l.values ∪ valuesOf (q.notes p registry l)).InjOn Value.digest) :
    let d := q.direct p registry l
    ∃ k o l' h g, q.attempt Ledger.backend p registry l = (⟨d.1.1, d.1.2, k, o⟩, l') ∧
      l'.Shows h ∧ o.Shows h g ∧ d.2.Shows g ∧ ∀ e, d.1.1 = .error e → e.isFatal = false := by
  obtain ⟨h, hl⟩ := hl.shows
  have hb := Meter.backend_shows (Overlay.backend_shows Ledger.backend_shows)
  -- At the start, both storages show what the ledger shows.
  have hs : (Lockstep.shown (Meter.ShowsOver (Overlay.ShowsOver Ledger.Shows)) l.values).Rel
      (.new q.readOnly, .empty, l) ([], l) :=
    ⟨h, ⟨hq, h, hl, Overlay.shows_empty h⟩, hl, by rw [hl.values]; exact Set.subset_union_left⟩
  have hr := Lockstep.call (Lockstep.agree_shown hb l.values).asks.writes.joins
    (q.machine p registry) q.entry q.args q.credits hs
  rw [notes] at hd
  rw [attempt, direct, Machine.call_noting Ledger.backend _ _ _ _ []]
  generalize (q.machine p registry).call _ q.entry q.args q.credits
    (Meter.new q.readOnly, Overlay.empty, l) = x at hr ⊢
  generalize (q.machine p registry).call Ledger.backend.noting q.entry q.args q.credits
    ([], l) = y at hr hd ⊢
  cases hr with
  | lost h => exact absurd hd h
  | off h => exact h.elim
  | ok hr =>
    obtain ⟨rfl, g, ⟨_, k, hk, ho⟩, hg, _⟩ := hr
    exact ⟨_, _, _, k, g, rfl, hk, ho, hg, fun e he => nomatch he⟩
  | error he hr =>
    obtain ⟨rfl, he⟩ := he
    obtain ⟨rfl, g, ⟨_, k, hk, ho⟩, hg, _⟩ := hr
    refine ⟨_, _, _, k, g, rfl, hk, ho, hg, ?_⟩
    rintro _ ⟨⟩
    exact he

/-- A call that is not read-only has the outcome of its direct execution. If that
    succeeds, then the ledger is afterwards as it would be after it. -/
theorem execute_direct (c : Settings) (hl : l.Reachable) (he : q.entry.isIn p)
    (hq : q.readOnly = false)
    (hd : (l.values ∪ valuesOf (q.notes p registry l)).InjOn Value.digest) :
    let d := q.direct p registry l
    let x := q.execute Ledger.backend p registry c l
    ∃ o, x.1 = .ok o ∧ o.result = d.1.2.result ∧ o.creditsUsed = d.1.2.credits.used ∧
      o.profile = d.1.2.credits.profile ∧
      o.report = (match d.1.1 with
        | .ok () => none
        | .error e => some (d.1.2.report e c.messageLimit)) ∧
      (d.1.1 = .ok () → ∀ a, (∀ y, x.2.get? a y = d.2.get? a y) ∧
        ∀ v, x.2.holders a v = d.2.holders a v) := by
  obtain ⟨k, o, l', h, g, ha, hl', ho, hg, hf⟩ := attempt_direct hl hq hd
  rw [execute, if_pos he, ha]
  generalize q.direct p registry l = d at hg hf ⊢
  obtain ⟨⟨r, m⟩, k'⟩ := d
  dsimp only at hg hf ⊢
  cases r with
  | error e =>
    -- The overlay is dropped. What the direct execution left is not compared.
    rw [settle_drop (Attempt.fault?_eq_none hf) rfl]
    exact ⟨_, rfl, rfl, rfl, rfl, rfl, fun h => nomatch h⟩
  | ok =>
    -- The overlay shows the register `g` that the other ledger shows by now, and
    -- a commit takes it to the ledger below.
    obtain ⟨t, hc, ht, _⟩ := Overlay.commit_shows Ledger.backend_shows hl' ho
    rw [settle_commit (by rw [commits, hq]; rfl) hc]
    refine ⟨_, rfl, rfl, rfl, rfl, rfl, fun _ a => ⟨fun y => ?_, fun v => ?_⟩⟩
    · rw [ht.get?, hg.get?]
    · rw [ht.holders, hg.holders]

/-- The cell that was just written is found first, before one that was there. -/
theorem execute_direct_sample :
    let d := sample.direct sampleProgram (fun _ => none) .sample
    let x := sample.execute Ledger.backend sampleProgram (fun _ => none) .usual .sample
    (∃ o, x.1 = .ok o ∧ o.result = some (.ref (.entry 0 3)) ∧ o.report = none) ∧
      ∀ a, (∀ y, x.2.get? a y = d.2.get? a y) ∧ ∀ v, x.2.holders a v = d.2.holders a v := by
  have hd : ∀ v ∈ (sample.notes sampleProgram (fun _ => none) .sample).flatMap Exchange.values,
      v ∈ [Value.ofWord64 5, .map 0, .map 1] := by decide +kernel
  obtain ⟨o, ho, hr, _, _, he, hs⟩ := execute_direct .usual Ledger.reachable_sample
    (show sample.entry.isIn sampleProgram by decide +kernel) rfl (Ledger.injOn_digest_sample hd)
  have hv : (sample.direct sampleProgram (fun _ => none) .sample).1.2.result =
      some (.ref (.entry 0 3)) := by decide +kernel
  have hk : (sample.direct sampleProgram (fun _ => none) .sample).1.1 = .ok () := by
    decide +kernel
  rw [hk] at he
  exact ⟨⟨o, ho, hr.trans hv, he⟩, hs hk⟩

end Call

end CreditMachine
