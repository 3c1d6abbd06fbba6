import CreditMachine.Proofs.Session
import CreditMachine.Storage.Outage

/-!
# Calls that are made again

The store may fail while a call is committed. Some of its changes have then been
made, and the overlay is dropped. Is it safe to make the whole call again?

Not in general: the call may read a cell of which it has changed the value. A
counter that is incremented again is one too high (`Call.not_execute_retry_counter`).
But it is safe if everything that the call has read is still the same. The attempt
then runs as before (`Call.attempt_again`), so that its overlay holds the same
changes, and these lead to the same ledger although some of them were made already
(`Call.execute_retry`).
-/

namespace CreditMachine

/-! ### Commits that fail -/

/-- Of requests that change cells, an outage passes on the first ones only. -/
theorem Outage.replay_below {σ : Type} (b : Backend σ) (l : List Request)
    (hl : ∀ r ∈ l, r.mutates) (i : Option Nat) (n : Nat) (e : StorageError) (s : σ) :
    ((backend b).replay l (⟨i, some n, e⟩, s)).2.2 = (b.replay (l.take n) s).2 := by
  induction l generalizing n s with
  | nil => rw [List.take_nil, Backend.replay, Backend.replay]
  | cons r l ih =>
    have hr := hl r List.mem_cons_self
    cases n with
    | zero =>
      have hp : pass? ⟨i, some 0, e⟩ r = none := by rw [pass?, if_pos hr]; rfl
      rw [List.take_zero, Backend.replay, Backend.replay, backend, hp]
    | succ n =>
      have hp : pass? ⟨i, some (n + 1), e⟩ r = some ⟨i, some n, e⟩ := by
        rw [pass?, if_pos hr]
        rfl
      rw [List.take_succ_cons, Backend.replay, Backend.replay, backend, hp]
      dsimp only
      generalize b r s = x
      obtain ⟨_ | _, s⟩ := x
      · rfl
      · exact ih (fun r hr => hl r (List.mem_cons_of_mem _ hr)) n s

/-- What an overlay commits are changes. -/
theorem Overlay.mutates_of_mem_changes {o : Overlay} {r : Request} (hr : r ∈ o.changes) :
    r.mutates := by
  rcases List.mem_append.1 hr with hr | hr
  · obtain ⟨p, _, rfl⟩ := List.mem_map.1 hr
    rfl
  · obtain ⟨⟨⟨c, s, j⟩, w⟩, _, hr⟩ := List.mem_filterMap.1 hr
    cases w with
    | some v =>
      obtain rfl := Option.some.inj hr
      rfl
    | none =>
      cases j with
      | none => cases hr
      | some j =>
        obtain rfl := Option.some.inj hr
        rfl

/-- A commit leaves below what its changes lead to, up to the first that fails. -/
theorem Call.settle_below {σ : Type} {b : Backend σ} {c : Settings} {q : Call} {a : Attempt} {s : σ}
    (hc : q.commits a) : (q.settle b c a s).2 = (b.replay a.overlay.changes s).2 := by
  rw [settle, fault?_of_commits hc]
  dsimp only
  rw [if_pos hc, Overlay.commit]
  generalize b.replay a.overlay.changes s = x
  obtain ⟨_ | _, s⟩ := x <;> rfl

/-! ### Attempts that are alike -/

/-- As long as nothing is written, it does not matter that later writes fail. -/
def Lockstep.outage (σ : Type) (g : Outage) : Lockstep (Outage × σ) σ where
  Rel x s := x = (g, s)
  Lost _ := False
  Off _ _ := False
  May _ := True
  own _ := trivial

/-- Whether a ledger gives the answer that was noted. -/
def Exchange.Recurs (l : Ledger) : Exchange → Prop
  | .request r a => (Ledger.backend r l).1 = a
  | .lookup c v a => (Ledger.backend.lookup c v l).1 = a

instance (l : Ledger) : (e : Exchange) → Decidable (e.Recurs l)
  | .request (.read ..) a | .request (.write ..) a | .request (.erase ..) a
  | .request (.eraseEntry ..) a | .request (.allocate ..) a | .request (.holders ..) a
  | .lookup _ _ a => inferInstanceAs (Decidable (_ = a))

/-- Notes are taken of the second execution. It is lost once something is noted that
    the ledger `l` answers otherwise. -/
def Lockstep.again (l : Ledger) : Lockstep Ledger (List Exchange × Ledger) where
  Rel k _ := k = l
  Lost t := ∃ e ∈ t.1, ¬e.Recurs l
  Off _ _ := False
  May _ := True
  own _ := trivial

/-- Reads of a ledger are answered as they were noted, or the second execution is lost. -/
theorem Lockstep.reads_again (l : Ledger) :
    (again l).Reads Ledger.backend Ledger.backend.noting where
  lost r t ht := by
    obtain ⟨e, he, hr⟩ := ht
    exact ⟨e, List.mem_append_left _ he, hr⟩
  same r {k t} hr hk := by
    obtain ⟨n, j⟩ := t
    obtain rfl : k = l := hk
    have hl := Ledger.backend_of_reads hr k
    rw [Backend.noting]
    generalize Ledger.backend r j = y
    obtain ⟨a, j⟩ := y
    by_cases ha : (Ledger.backend r k).1 = a
    · rw [show Ledger.backend r k = (a, k) from Prod.ext ha hl]
      cases a with
      | ok a => exact .ok rfl
      | error e => exact .error trivial rfl
    · exact .lost ⟨_, List.mem_append_right _ (List.mem_singleton_self _), ha⟩

namespace Call

variable {σ : Type} {b : Backend σ} {p : Program} {registry : Registry} {q : Call} {l : Ledger}

/-- An attempt does not write to the store, so it does not see that writes would fail. -/
theorem attempt_outage {g : Outage} (hg : g.reads = none) (s : σ) :
    q.attempt (Outage.backend b) p registry (g, s) =
      ((q.attempt b p registry s).1, g, (q.attempt b p registry s).2) := by
  have hr : (Lockstep.outage σ g).Reads (Outage.backend b) b := by
    refine ⟨fun _ _ h => h, ?_⟩
    rintro r _ s hr rfl
    have hp : g.pass? r = some g := by
      rw [Outage.pass?, if_neg (by simp [hr]), hg]
      obtain ⟨_, w, e⟩ := g
      obtain rfl := hg
      rfl
    rw [Outage.backend, hp]
    dsimp only
    generalize b r s = x
    obtain ⟨_ | _, s⟩ := x
    · exact .error trivial rfl
    · exact .ok rfl
  rcases Lockstep.attempt hr (fun _ _ h => h) q p registry
    (show (Lockstep.outage σ g).Rel (g, s) s from rfl) with h | ⟨ha, hs⟩
  · exact h.elim
  · exact Prod.ext ha hs

/-- An attempt does not see that notes are taken. -/
theorem attempt_noting (n : List Exchange) (s : σ) :
    (q.attempt b p registry s).1 = (q.attempt b.noting p registry (n, s)).1 := by
  rcases Lockstep.attempt (agree_noted b).reads (fun _ _ h => h) q p registry
    (show (noted σ).Rel s (n, s) from rfl) with h | ⟨ha, _⟩
  · exact h.elim
  · exact ha

variable (q p registry l) in
/-- What an attempt asks of the ledger. -/
def readings : List Exchange := (q.attempt Ledger.backend.noting p registry ([], l)).2.1

/-- An attempt runs as before on a ledger that answers as before. -/
theorem attempt_again {k : Ledger} (hk : ∀ e ∈ q.readings p registry l, e.Recurs k) :
    q.attempt Ledger.backend p registry k = ((q.attempt Ledger.backend p registry l).1, k) := by
  have ha := Lockstep.attempt (Lockstep.reads_again k) (fun _ _ h => h) q p registry
    (show (Lockstep.again k).Rel k ([], l) from rfl)
  rw [attempt_noting [] l]
  rcases ha with ⟨e, he, hr⟩ | ⟨ha, hs⟩
  · exact absurd (hk e he) hr
  · exact Prod.ext ha hs

variable (p registry) in
/-- The overlay of an attempt that is to be committed shows a register. -/
theorem attempt_shows (hl : l.Reachable) (hq : q.readOnly = false) :
    ∃ k h, l.Shows k ∧ (q.attempt Ledger.backend p registry l).1.overlay.Shows k h := by
  obtain ⟨h, hl⟩ := hl.shows
  have hb := Meter.backend_shows (Overlay.backend_shows Ledger.backend_shows)
  have hs : ∃ h, Meter.ShowsOver (Overlay.ShowsOver Ledger.Shows)
      (Meter.new q.readOnly, Overlay.empty, l) h := ⟨h, hq, h, hl, Overlay.shows_empty h⟩
  have hs := Machine.call_keeps
    (I := fun x => ∃ h, Meter.ShowsOver (Overlay.ShowsOver Ledger.Shows) x h)
    (fun r _ ⟨h, hx⟩ => ⟨h.after r, hb.after r hx⟩) (q.machine p registry) q.entry q.args q.credits
    hs
  have hn := q.attempt_below p registry l
  rw [attempt] at hn ⊢
  generalize Machine.call _ _ _ _ _ _ = x at hs hn ⊢
  obtain ⟨h, _, k, hk, ho⟩ := hs
  obtain rfl := hn
  exact ⟨k, h, hk, ho⟩

variable (q p registry l) in
/-- The ledger after a call, if all but `n` of the writes fail that the store is asked
    for. -/
def interrupted (c : Settings) (n : Nat) (e : StorageError) : Ledger :=
  (q.execute (Outage.backend Ledger.backend) p registry c (⟨none, some n, e⟩, l)).2.2

variable (registry l) in
/-- A call is interrupted after some of its changes, or before it has made any. -/
theorem interrupted_eq (he : q.entry.isIn p) (c : Settings) (n : Nat) (e : StorageError) :
    let a := (q.attempt Ledger.backend p registry l).1
    q.interrupted p registry l c n e =
      if q.commits a then (Ledger.backend.replay (a.overlay.changes.take n) l).2 else l := by
  intro a
  rw [interrupted, execute, if_pos he, attempt_outage rfl, attempt_below]
  dsimp only
  split
  · next hc =>
    rw [settle_below hc, Outage.replay_below _ _ fun r hr => Overlay.mutates_of_mem_changes hr]
  · next hc => rw [settle_snd (by simpa using hc)]

/-- A call that was interrupted while it was committed may be made again, if the
    ledger still answers all that the call has asked. The outcome and the ledger are
    then those of one call that was not interrupted. -/
theorem execute_retry (hl : l.Reachable) (c : Settings) (n : Nat) (e : StorageError)
    (hr : ∀ x ∈ q.readings p registry l, x.Recurs (q.interrupted p registry l c n e)) :
    let x := q.execute Ledger.backend p registry c (q.interrupted p registry l c n e)
    let y := q.execute Ledger.backend p registry c l
    x.1 = y.1 ∧
      ∀ a, (∀ i, x.2.get? a i = y.2.get? a i) ∧ ∀ v, x.2.holders a v = y.2.holders a v := by
  by_cases he : q.entry.isIn p
  · have hn := interrupted_eq registry l he c n e
    have ha := attempt_again hr
    have hb := q.attempt_below p registry l
    rw [execute, execute, if_pos he, if_pos he, ha]
    dsimp only at hn ⊢
    rw [hn, hb]
    by_cases hc : q.commits (q.attempt Ledger.backend p registry l).1
    · rw [if_pos hc]
      have hq : q.readOnly = false := by simpa using (Bool.and_eq_true_iff.1 hc).2
      obtain ⟨k, h, hk, ho⟩ := attempt_shows p registry hl hq
      -- Both commits lead to the register `h` that the overlay shows.
      obtain ⟨_, hk'⟩ := Ledger.backend_shows.replay
        ((q.attempt Ledger.backend p registry l).1.overlay.changes.take n) hk
      obtain ⟨s, hs, hx, _⟩ := Overlay.commit_shows Ledger.backend_shows hk'
        (ho.after_changes _ fun r hr => List.mem_of_mem_take hr)
      obtain ⟨t, ht, hy, _⟩ := Overlay.commit_shows Ledger.backend_shows hk ho
      rw [settle_commit hc hs, settle_commit hc ht]
      exact ⟨rfl, fun a => ⟨fun i => (hx.get? a i).trans (hy.get? a i).symm,
        fun v => (hx.holders a v).trans (hy.holders a v).symm⟩⟩
    · rw [if_neg hc]
      exact ⟨rfl, fun a => ⟨fun i => rfl, fun v => rfl⟩⟩
  · -- There is no such entry in the program, and nothing is done.
    have hn : q.interrupted p registry l c n e = l := by rw [interrupted, execute, if_neg he]
    rw [hn]
    exact ⟨rfl, fun a => ⟨fun i => rfl, fun v => rfl⟩⟩

/-- A program that appends to an array. -/
def appendProgram : Program where
  constants := #[]
  code := #[.of .append [.persistent 0, .imm 5], .of .ret []]
  methods := #[⟨"main", 0, 1, 0, false⟩]
  lines := #[]

/-- An entry is written before the length of its array. If the store fails in
    between, then the entry is written again, to the same place. -/
theorem execute_retry_append :
    let l := (Ledger.backend (.write ⟨7⟩ (.root 0) (.array 2)) .sample).2
    let k := sample.interrupted appendProgram (fun _ => none) l .usual 1 (.backend "")
    let x := sample.execute Ledger.backend appendProgram (fun _ => none) .usual k
    let y := sample.execute Ledger.backend appendProgram (fun _ => none) .usual l
    (k.get? ⟨7⟩ (.entry 0 2) = some (.ofWord64 5) ∧ k.get? ⟨7⟩ (.root 0) = some (.array 2)) ∧
      x.1 = y.1 ∧
        ∀ a, (∀ i, x.2.get? a i = y.2.get? a i) ∧ ∀ v, x.2.holders a v = y.2.holders a v := by
  intro l k x y
  exact ⟨by decide +kernel,
    execute_retry (.request _ Ledger.reachable_sample) .usual 1 (.backend "") (by decide +kernel)⟩

/-- A program that increments a counter, and writes another cell. -/
def counterProgram : Program where
  constants := #[]
  code := #[.of .add [.persistent 1, .persistent 1, .imm 1], .of .copy [.persistent 2, .imm 7],
    .of .ret []]
  methods := #[⟨"main", 0, 1, 0, false⟩]
  lines := #[]

/-- A counter is not safe. If the store fails after it was incremented, then the call
    that is made again increments it once more. -/
theorem not_execute_retry_counter :
    let e := StorageError.backend "disk unavailable"
    let z := sample.execute (Outage.backend Ledger.backend) counterProgram (fun _ => none) .usual
      (⟨none, some 1, e⟩, .sample)
    let x := sample.execute Ledger.backend counterProgram (fun _ => none) .usual z.2.2
    let y := sample.execute Ledger.backend counterProgram (fun _ => none) .usual .sample
    z.1 = .error (.backend e) ∧ x.1 = y.1 ∧ x.2.get? ⟨7⟩ (.root 1) = some (.ofWord64 7) ∧
      y.2.get? ⟨7⟩ (.root 1) = some (.ofWord64 6) := by
  decide +kernel

end Call

end CreditMachine
