import CreditMachine.Proofs.Session
import CreditMachine.Storage.Outage

/-!
# Calls that leave no trace

Layers may be stacked on a ledger in any number and order: overlays, meters, and
layers that let requests fail at any time (`Layered`), such as outages
(`Outage.backend_eq_faults`). What matters of such a store is its *view*: the ledger
at the bottom, the changes that the overlays hold, and what cells hold with these
changes. Counts of meters and what overlays have read are no part of it.

Requests that read are answered from the view and keep it (`Layered.sees`). Before
its commit, a call makes no others (`Call.attempt_keeps`). So a call that is not
committed leaves the view as it was, whatever it did before it ended
(`Call.execute_view`).
-/

namespace CreditMachine

/-! ### Failing requests -/

/-- A layer over the backend `b` that lets requests fail, as `f` decides, without
    passing them on. -/
def Faults.backend {φ σ : Type} (f : Request → φ → Option StorageError × φ) (b : Backend σ) :
    Backend (φ × σ) := fun r (g, s) =>
  match f r g with
  | (some e, g) => (.error e, g, s)
  | (none, g) =>
    let (a, s) := b r s
    (a, g, s)

/-- Which requests an outage lets fail. -/
def Outage.fault (r : Request) (g : Outage) : Option StorageError × Outage :=
  match g.pass? r with
  | none => (some g.error, g)
  | some g => (none, g)

/-- An outage is a layer that fails now and then, by its own rule. -/
theorem Outage.backend_eq_faults {σ : Type} (b : Backend σ) :
    Outage.backend b = Faults.backend Outage.fault b := by
  funext r ⟨g, s⟩
  rw [Outage.backend, Faults.backend, Outage.fault]
  cases g.pass? r <;> rfl

/-! ### Views -/

/-- What is seen of a store. -/
structure View where
  /-- The ledger below all layers. -/
  ledger : Ledger
  /-- The changes that each overlay holds, the top one first. -/
  changes : List ChangeSet
  /-- The value of a cell. -/
  get? : Place → Option Value
  /-- The cells of a contract that hold a value, the one written last first. -/
  holders : Address → Value → List Cell

/-- What is seen of a ledger. -/
def Ledger.view (l : Ledger) : View := ⟨l, [], fun p => l.get? p.owner p.cell, l.holders⟩

/-- What is seen of an overlay over a store with the view `w`. -/
def Overlay.view (o : Overlay) (w : View) : View where
  ledger := w.ledger
  changes := o.changeSet :: w.changes
  get? p := (o.known? p).getD (w.get? p)
  holders c v := o.holders c v ++ (w.holders c v).filter fun x => !o.hides ⟨c, x⟩

/-- A backend that is made of layers on a ledger, with what is seen of its
    states. -/
inductive Layered : {σ : Type} → Backend σ → (σ → View) → Prop
  | ledger : Layered Ledger.backend Ledger.view
  | overlay {σ : Type} {b : Backend σ} {w : σ → View} :
    Layered b w → Layered (Overlay.backend b) fun (o, s) => o.view (w s)
  | meter {σ : Type} {b : Backend σ} {w : σ → View} :
    Layered b w → Layered (Meter.backend b) fun (_, s) => w s
  | faults {φ σ : Type} {b : Backend σ} {w : σ → View}
    (f : Request → φ → Option StorageError × φ) :
    Layered b w → Layered (Faults.backend f b) fun (_, s) => w s

/-- Requests that read are answered from what is seen, and keep it. -/
structure Backend.Sees {σ : Type} (b : Backend σ) (w : σ → View) : Prop where
  read : ∀ {s c x a}, (b (.read c x) s).1 = .ok a → a = (w s).get? ⟨c, x⟩
  search : ∀ {s c v l}, (b (.holders c v) s).1 = .ok l → l = (w s).holders c v
  keep : ∀ r s, r.mutates = false → w (b r s).2 = w s

namespace Overlay

variable {σ : Type} {b : Backend σ} {w : σ → View}

/-- What is seen through an overlay: what it knows of a cell, or else what is seen below. -/
theorem get?_view (o : Overlay) (w : View) (p : Place) :
    (o.view w).get? p = (o.known? p).getD (w.get? p) := rfl

/-- A cell that is filled with the value seen below is seen as before. -/
theorem view_fill {o : Overlay} {p : Place} (hp : o.known? p = none) (w : View) :
    ({ o with fills := o.fills.insert p (w.get? p) } : Overlay).view w = o.view w := by
  suffices hk : ∀ q, (({ o with fills := o.fills.insert p (w.get? p) } : Overlay).view w).get? q =
      (o.view w).get? q by
    exact congrArg (fun g => { o.view w with get? := g }) (funext hk)
  intro q
  rw [get?_view, get?_view]
  unfold known? at hp ⊢
  rw [Std.ExtTreeMap.getElem?_insert]
  by_cases hq : p = q
  · subst hq
    rw [if_pos Std.ReflOrd.compare_self]
    cases hs : o.staged.lookup p with
    | some v => simp [hs] at hp
    | none =>
      rw [hs] at hp
      rw [hp]
      rfl
  · rw [if_neg (by rwa [Std.LawfulEqOrd.compare_eq_iff_eq])]

/-- A read through an overlay answers what is seen, and changes nothing of it, though it may fill a
    cell. -/
theorem fetch_sees (hb : b.Sees w) (o : Overlay) (p : Place) (s : σ) :
    (∀ a, (o.fetch b p s).1 = .ok a → a = (o.view (w s)).get? p) ∧
      (o.fetch b p s).2.1.view (w (o.fetch b p s).2.2) = o.view (w s) := by
  rw [fetch, get?_view]
  cases hk : o.known? p with
  | some v => exact ⟨fun a h => (Except.ok.inj h).symm, rfl⟩
  | none =>
    have hr := @hb.read s p.owner p.cell
    have hn := hb.keep (.read p.owner p.cell) s rfl
    dsimp only
    generalize b (.read p.owner p.cell) s = x at hr hn ⊢
    obtain ⟨_ | v, t⟩ := x
    · exact ⟨fun a h => (by cases h), congrArg o.view hn⟩
    · obtain rfl := hr rfl
      refine ⟨fun a h => (Except.ok.inj h).symm, ?_⟩
      dsimp only at hn ⊢
      rw [hn]
      exact view_fill hk (w s)

/-- An overlay over what can be seen through can be seen through, too. -/
theorem sees (hb : b.Sees w) : (backend b).Sees fun (o, s) => o.view (w s) where
  read {x c y a} h := (fetch_sees hb x.1 ⟨c, y⟩ x.2).1 a h
  search {x c v l} h := by
    obtain ⟨o, s⟩ := x
    have hs := @hb.search s c v
    rw [backend] at h
    generalize b (.holders c v) s = y at hs h
    obtain ⟨_ | k, t⟩ := y
    · cases h
    · obtain rfl := hs rfl
      exact (Except.ok.inj h).symm
  keep r x hr := by
    obtain ⟨o, s⟩ := x
    cases r with
    | read c y => exact (fetch_sees hb o ⟨c, y⟩ s).2
    | holders c v =>
      have hn := hb.keep (.holders c v) s rfl
      rw [backend]
      generalize b (.holders c v) s = y at hn ⊢
      obtain ⟨_ | _, t⟩ := y <;> exact congrArg o.view hn
    | write | erase | eraseEntry | allocate => cases hr

end Overlay

/-- A ledger shows all it holds. -/
theorem Ledger.sees : backend.Sees view where
  read h := (Except.ok.inj h).symm
  search h := (Except.ok.inj h).symm
  keep r l hr := by
    cases r with
    | read | holders => rfl
    | write | erase | eraseEntry | allocate => cases hr

/-- A layer that passes on a request with its answer, or refuses it. -/
theorem Backend.Sees.over {φ σ : Type} {b : Backend σ} {d : Backend (φ × σ)} {w : σ → View}
    (hb : b.Sees w) (hd : ∀ r g s, (∃ e g', d r (g, s) = (.error e, g', s)) ∨
      ∃ g', d r (g, s) = ((b r s).1, g', (b r s).2)) :
    d.Sees fun (_, s) => w s where
  read {x c y a} h := by
    obtain ⟨g, s⟩ := x
    rcases hd (.read c y) g s with ⟨e, g', hx⟩ | ⟨g', hx⟩ <;> rw [hx] at h
    · cases h
    · exact hb.read h
  search {x c v l} h := by
    obtain ⟨g, s⟩ := x
    rcases hd (.holders c v) g s with ⟨e, g', hx⟩ | ⟨g', hx⟩ <;> rw [hx] at h
    · cases h
    · exact hb.search h
  keep r x hr := by
    obtain ⟨g, s⟩ := x
    rcases hd r g s with ⟨e, g', hx⟩ | ⟨g', hx⟩ <;> rw [hx]
    exact hb.keep r s hr

/-- A meter hides nothing and adds nothing. -/
theorem Meter.sees {σ : Type} {b : Backend σ} {w : σ → View} (hb : b.Sees w) :
    (Meter.backend b).Sees fun (_, s) => w s := by
  refine hb.over fun r m s => ?_
  rw [Meter.backend]
  by_cases hr : r.mutates && m.readOnly
  · rw [if_pos hr]
    exact .inl ⟨_, _, rfl⟩
  · rw [if_neg hr]
    generalize b r s = x
    obtain ⟨_ | _, t⟩ := x <;> exact .inr ⟨_, rfl⟩

/-- A failure answers nothing and changes nothing that is seen. -/
theorem Faults.sees {φ σ : Type} {b : Backend σ} {w : σ → View}
    (f : Request → φ → Option StorageError × φ) (hb : b.Sees w) :
    (Faults.backend f b).Sees fun (_, s) => w s := by
  refine hb.over fun r g s => ?_
  rw [Faults.backend]
  generalize f r g = x
  obtain ⟨_ | e, g⟩ := x
  · exact .inr ⟨g, rfl⟩
  · exact .inl ⟨e, g, rfl⟩

/-- Stores with one view give one answer to what reads. -/
theorem Backend.Sees.answer {σ : Type} {b : Backend σ} {w : σ → View} (hb : b.Sees w) {r : Request}
    (hr : r.mutates = false) {s t : σ} (hs : w s = w t) {a a' : r.Answer}
    (ha : (b r s).1 = .ok a) (ha' : (b r t).1 = .ok a') : a = a' := by
  cases r with
  | read => rw [hb.read ha, hb.read ha', hs]
  | holders => rw [hb.search ha, hb.search ha', hs]
  | write | erase | eraseEntry | allocate => cases hr

/-- Through any stack of overlays, meters and layers that fail, one can see what is there. The proof
    is by induction on the stack. -/
theorem Layered.sees {σ : Type} {b : Backend σ} {w : σ → View} (hb : Layered b w) : b.Sees w := by
  induction hb with
  | ledger => exact Ledger.sees
  | overlay _ ih => exact Overlay.sees ih
  | meter _ ih => exact Meter.sees ih
  | faults f _ ih => exact Faults.sees f ih

/-! ### Calls -/

namespace Call

variable {σ : Type} {b : Backend σ} {w : σ → View} {p : Program} {registry : Registry}
  {c : Settings} {q : Call} {s : σ}

variable (p registry q s) in
/-- An attempt leaves no trace. -/
theorem attempt_view (hb : b.Sees w) : w (q.attempt b p registry s).2 = w s :=
  attempt_keeps (I := fun t => w t = w s) (fun r t hr ht => (hb.keep r t hr).trans ht) q p registry
    rfl

/-- What is committed succeeds, unless the commit fails. -/
theorem settle_of_commits {a : Attempt} (hc : q.commits a) :
    (∃ e, (q.settle b c a s).1 = .error (.backend e)) ∨
      ∃ o, (q.settle b c a s).1 = .ok o ∧ o.isSuccess := by
  rw [settle, fault?_of_commits hc]
  dsimp only
  rw [if_pos hc]
  generalize a.overlay.commit b s = x
  obtain ⟨_ | n, o, t⟩ := x
  · exact .inl ⟨_, rfl⟩
  · refine .inr ⟨_, rfl, ?_⟩
    obtain ⟨hr, _⟩ := Bool.and_eq_true_iff.1 hc
    rw [Outcome.isSuccess, Attempt.outcome]
    cases ha : a.ending with
    | ok => rfl
    | error e =>
      rw [ha] at hr
      cases hr

/-- A call of a store under layers leaves no trace there if it is read-only, if it
    aborts, if the program has no such entry, or if the store fails during the
    attempt: the ledger, the changes that overlays hold, and the cells that are
    seen are as before, and whatever is read again has the same answer. -/
theorem execute_view (hb : Layered b w)
    (hx : q.readOnly ∨
      match (q.execute b p registry c s).1 with
      | .ok o => o.isSuccess = false
      | .error (.invalidEntry _) => True
      | .error (.backend _) => (q.attempt b p registry s).1.fault?.isSome) :
    let x := q.execute b p registry c s
    w x.2 = w s ∧ ∀ r, r.mutates = false → ∀ a a', (b r s).1 = .ok a → (b r x.2).1 = .ok a' →
      a' = a := by
  suffices hn : w (q.execute b p registry c s).2 = w s from
    ⟨hn, fun r hr a a' ha ha' => hb.sees.answer hr hn ha' ha⟩
  unfold execute at hx ⊢
  by_cases he : q.entry.isIn p
  · rw [if_pos he] at hx ⊢
    have hn := attempt_view p registry q s hb.sees
    generalize q.attempt b p registry s = x at hx hn ⊢
    obtain ⟨a, t⟩ := x
    dsimp only at hx hn ⊢
    -- A call that commits has not failed, unless the commit did; but then it was no fault of the
    -- attempt.
    by_cases hc : q.commits a
    · rcases hx with hq | hx
      · rw [commits, hq, Bool.not_true, Bool.and_false] at hc
        cases hc
      · rcases settle_of_commits (b := b) (c := c) (s := t) hc with ⟨e, he⟩ | ⟨o, ho, hs⟩
        · rw [he, fault?_of_commits hc] at hx
          cases hx
        · rw [ho] at hx
          exact absurd (hs.symm.trans hx) (by decide)
    · rw [settle_snd (by simpa using hc), hn]
  · rw [if_neg he]

/-- The credits are spent between the two writes that fill a map. The overlay that
    holds a change keeps it, although the ledger has been read through it. -/
theorem execute_view_sample :
    let b := Overlay.backend (Faults.backend Outage.fault (Meter.backend Ledger.backend))
    let w : Overlay × Outage × Meter × Ledger → View := fun (o, _, _, l) => o.view l.view
    let s : Overlay × Outage × Meter × Ledger := (Overlay.empty.stage ⟨⟨7⟩, .root 2⟩ (some .nil),
      ⟨some 9, some 0, .backend ""⟩, .new false, .sample)
    let q : Call := { sample with credits := 365 }
    let x := q.execute b sampleProgram (fun _ => none) .usual s
    (x.1.map fun o => (o.isSuccess, o.creditsUsed)) = .ok (false, 360) ∧ w x.2 = w s := by
  intro b w s q x
  have hx : (x.1.map fun o => (o.isSuccess, o.creditsUsed)) = .ok (false, 360) := by
    decide +kernel
  refine ⟨hx, (execute_view (.overlay (.faults _ (.meter .ledger))) (.inr ?_)).1⟩
  change match x.1 with | .ok o => _ | .error (.invalidEntry _) => _ | .error (.backend _) => _
  generalize x.1 = y at hx ⊢
  cases y with
  | ok o => exact (Prod.mk.inj (Except.ok.inj hx)).1
  | error e => cases hx

end Call

end CreditMachine
