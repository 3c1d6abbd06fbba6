import CreditMachine.Proofs.Failures

/-!
# Overlays survive failures

An overlay over a store that may fail at any request is used in any way, and committed now
and then (`Overlay.perform`). What fails leaves the overlay as it is
(`Overlay.perform_faults`), although a commit that fails may have made some of its changes
below: these do not show through the overlay, and are made again by the next commit. So two
ledgers of which the one has got some of the changes already look the same through the
overlay (`Overlay.perform_alike`).

Hence one may leave out all that has failed (`Overlay.mended`): what has not failed is
answered as before, and the next commit that succeeds leads to the same cells, in the same
order (`Overlay.performAll_faults`). The commits that have failed may stay as well; they
succeed on a store that does not fail.
-/

namespace CreditMachine.Overlay

/-! ### Operations -/

/-- What is done with an overlay. -/
inductive Op
  /-- Makes a request. -/
  | request (r : Request)
  /-- Searches the cell of a contract that holds a value and was written last. -/
  | lookup (c : Address) (v : Value)
  | commit
deriving DecidableEq

/-- What an operation is answered. -/
inductive Reply
  | exchange (x : Exchange)
  /-- The number of the cells that were changed by a commit. -/
  | commit (a : Except StorageError Nat)

/-- Whether there was no answer. -/
def Reply.failed : Reply → Bool
  | .exchange x => x.failed
  | .commit (.ok _) => false
  | .commit (.error _) => true

variable {σ φ : Type}

/-- Performs an operation on an overlay over the backend `b`. -/
def perform (b : Backend σ) : Op → Overlay × σ → Reply × Overlay × σ
  | .request r, x =>
    let (a, x) := backend b r x
    (.exchange (.request r a), x)
  | .lookup c v, x =>
    let (a, x) := (backend b).lookup c v x
    (.exchange (.lookup c v a), x)
  | .commit, (o, s) =>
    let (a, x) := o.commit b s
    (.commit a, x)

/-- Performs operations in turn, whether they fail or not. -/
def performAll (b : Backend σ) : List Op → Overlay × σ → List Reply × Overlay × σ
  | [], x => ([], x)
  | p :: l, x =>
    let (a, x) := perform b p x
    let (as, x) := performAll b l x
    (a :: as, x)

/-- The operations that have not failed, as the replies tell. If `keep` says so, all commits
    are among them. -/
def mended (keep : Bool) (l : List Op) (as : List Reply) : List Op :=
  ((l.zip as).filter fun (p, a) => !a.failed || keep && p = .commit).map Prod.fst

/-- An operation is kept if it has not failed, or if it is a commit and commits are kept. -/
theorem mended_cons (keep : Bool) (p : Op) (l : List Op) (a : Reply) (as : List Reply) :
    mended keep (p :: l) (a :: as) =
      if !a.failed || keep && p = .commit then p :: mended keep l as else mended keep l as := by
  rw [mended, List.zip_cons_cons, List.filter_cons]
  dsimp only
  split <;> rfl

/-! ### Failures -/

section Faults

variable {f : Request → φ → Option StorageError × φ} {b : Backend σ} (g : φ) (s : σ)

/-- A cell that is not known is asked for. This fails without effect, or goes as if nothing could
    fail. -/
theorem fetch_faults (o : Overlay) (p : Place) :
    (∃ e g', o.fetch (Faults.backend f b) p (g, s) = (.error e, o, g', s)) ∨
      ∃ g', o.fetch (Faults.backend f b) p (g, s) =
        ((o.fetch b p s).1, (o.fetch b p s).2.1, g', (o.fetch b p s).2.2) := by
  rw [fetch, fetch]
  cases o.known? p with
  | some v => exact .inr ⟨g, rfl⟩
  | none =>
    dsimp only
    rw [Faults.backend]
    generalize f (.read p.owner p.cell) g = x
    obtain ⟨_ | e, g'⟩ := x
    · dsimp only
      generalize b (.read p.owner p.cell) s = y
      obtain ⟨_ | _, t⟩ := y <;> exact .inr ⟨g', rfl⟩
    · exact .inl ⟨e, g', rfl⟩

/-- A request fails without effect, or is answered as if nothing could fail. -/
theorem backend_faults (r : Request) (o : Overlay) :
    (∃ e g', backend (Faults.backend f b) r (o, g, s) = (.error e, o, g', s)) ∨
      ∃ g', backend (Faults.backend f b) r (o, g, s) =
        ((backend b r (o, s)).1, (backend b r (o, s)).2.1, g', (backend b r (o, s)).2.2) := by
  cases r with
  | read c x => exact fetch_faults g s o ⟨c, x⟩
  | write | erase | eraseEntry => exact .inr ⟨g, rfl⟩
  | allocate c i =>
    rw [backend, backend]
    rcases fetch_faults (f := f) (b := b) g s o ⟨c, .root i⟩ with ⟨e, g', h⟩ | ⟨g', h⟩ <;> rw [h]
    · exact .inl ⟨e, g', rfl⟩
    · generalize o.fetch b ⟨c, .root i⟩ s = y
      rcases y with ⟨_ | _ | _, _, _⟩ <;> exact .inr ⟨g', rfl⟩
  | holders c v =>
    rw [backend, backend, Faults.backend]
    generalize f (.holders c v) g = x
    obtain ⟨_ | e, g'⟩ := x
    · dsimp only
      generalize b (.holders c v) s = y
      obtain ⟨_ | _, t⟩ := y <;> exact .inr ⟨g', rfl⟩
    · exact .inl ⟨e, g', rfl⟩

/-- Of requests that are made in turn, the first ones are made, or all of them. -/
theorem replay_faults (l : List Request) :
    (∃ e g' n, (Faults.backend f b).replay l (g, s) = (.error e, g', (b.replay (l.take n) s).2)) ∨
      ∃ g', (Faults.backend f b).replay l (g, s) =
        ((b.replay l s).1, g', (b.replay l s).2) := by
  induction l generalizing g s with
  | nil => exact .inr ⟨g, rfl⟩
  | cons r l ih =>
    rw [Backend.replay, Faults.backend]
    generalize f r g = x
    obtain ⟨_ | e, g'⟩ := x
    · dsimp only
      rw [Backend.replay]
      cases hy : b r s with
      | mk a t =>
        cases a with
        | error e => exact .inr ⟨g', rfl⟩
        | ok a =>
          rcases ih g' t with ⟨e, g'', n, h⟩ | ⟨g'', h⟩
          · refine .inl ⟨e, g'', n + 1, ?_⟩
            rw [List.take_succ_cons, Backend.replay, hy]
            exact h
          · exact .inr ⟨g'', h⟩
    · exact .inl ⟨e, g', 0, rfl⟩

end Faults

/-! ### Ledgers that look the same -/

section Ledgers

variable {o o' : Overlay} {l l' : Ledger} {h : Register}

/-- An overlay over a ledger shows the register `h`. -/
abbrev Shown (o : Overlay) (l : Ledger) (h : Register) : Prop := ShowsOver Ledger.Shows (o, l) h

/-- The register after an operation. -/
def Op.after : Op → Register → Register
  | .request r, h => h.after r
  | .lookup .., h | .commit, h => h

/-- A request to an overlay changes nothing in the ledger below. -/
theorem backend_below (r : Request) (o : Overlay) (l : Ledger) :
    (backend Ledger.backend r (o, l)).2.2 = l := by
  have hf (p : Place) : (o.fetch Ledger.backend p l).2.2 = l := by
    rw [fetch]
    split <;> rfl
  cases r with
  | read c x => exact hf ⟨c, x⟩
  | write | erase | eraseEntry | holders => rfl
  | allocate c i =>
    have hf := hf ⟨c, .root i⟩
    rw [backend]
    generalize o.fetch Ledger.backend ⟨c, .root i⟩ l = x at hf ⊢
    rcases x with ⟨_ | _ | _, _, _⟩ <;> exact hf

/-- Only a commit changes the ledger below. -/
theorem perform_below {p : Op} (hp : p ≠ .commit) (o : Overlay) (l : Ledger) :
    (perform Ledger.backend p (o, l)).2.2 = l := by
  cases p with
  | request r =>
    rw [perform]
    exact backend_below r o l
  | lookup c v =>
    rw [perform, Backend.lookup]
    exact backend_below (.holders c v) o l
  | commit => exact absurd rfl hp

/-- A ledger commits everything that is pending: it then shows what was seen through the overlay,
    and the overlay is settled. -/
theorem commit_ledger (hx : o.Shown l h) : ∃ t : Ledger,
    o.commit Ledger.backend l = (.ok o.pending, o.settled, t) ∧ t.Shows h ∧
      o.settled.Shown t h := by
  obtain ⟨k, hk, ho⟩ := hx
  obtain ⟨t, hc, ht, ho⟩ := commit_shows Ledger.backend_shows hk ho
  exact ⟨t, hc, ht, h, ht, ho⟩

/-- After a commit the ledger shows what was seen through the overlay. -/
theorem perform_commit (hx : o.Shown l h) :
    (perform Ledger.backend .commit (o, l)).2.2.Shows h := by
  obtain ⟨t, hc, ht, _⟩ := commit_ledger hx
  rw [perform, hc]
  exact ht

/-- Over a ledger, no operation fails. -/
theorem perform_ledger (hx : o.Shown l h) (p : Op) :
    (perform Ledger.backend p (o, l)).1.failed = false ∧
      ShowsOver Ledger.Shows (perform Ledger.backend p (o, l)).2 (p.after h) := by
  have hb := backend_shows Ledger.backend_shows
  cases p with
  | request r =>
    obtain ⟨a, t, he, _, ht⟩ := hb.reply r hx
    rw [perform, he]
    exact ⟨rfl, ht⟩
  | lookup c v =>
    obtain ⟨a, t, he, _, ht⟩ := hb.reply (.holders c v) hx
    rw [perform, Backend.lookup, he]
    exact ⟨rfl, ht⟩
  | commit =>
    obtain ⟨t, hc, _, ht⟩ := commit_ledger hx
    rw [perform, hc]
    exact ⟨rfl, ht⟩

/-- An overlay over one that may fail performs an operation as if nothing could fail, or it
    fails and keeps what it holds. -/
theorem perform_faults {f : Request → φ → Option StorageError × φ} (hx : o.Shown l h) (p : Op)
    (g : φ) :
    let x := perform (Faults.backend f Ledger.backend) p (o, g, l)
    let y := perform Ledger.backend p (o, l)
    (x.1.failed ∧ x.2.1 = o ∧ o.Shown x.2.2.2 h) ∨ ∃ g', x = (y.1, y.2.1, g', y.2.2) := by
  cases p with
  | request r =>
    dsimp only
    rw [perform]
    rcases backend_faults (f := f) (b := Ledger.backend) g l r o with ⟨e, g', he⟩ | ⟨g', he⟩ <;>
      rw [he]
    · exact .inl ⟨rfl, rfl, hx⟩
    · exact .inr ⟨g', rfl⟩
  | lookup c v =>
    dsimp only
    rw [perform, Backend.lookup]
    rcases backend_faults (f := f) (b := Ledger.backend) g l (.holders c v) o with
      ⟨e, g', he⟩ | ⟨g', he⟩ <;> rw [he]
    · exact .inl ⟨rfl, rfl, hx⟩
    · exact .inr ⟨g', rfl⟩
  | commit =>
    dsimp only
    rw [perform, perform, commit, commit]
    rcases replay_faults (f := f) (b := Ledger.backend) g l o.changes with
      ⟨e, g', n, he⟩ | ⟨g', he⟩ <;> rw [he]
    · -- Some of the changes were made below. They do not show.
      obtain ⟨k, hk, ho⟩ := hx
      obtain ⟨_, hn⟩ := Ledger.backend_shows.replay (o.changes.take n) hk
      exact .inl ⟨rfl, rfl, _, hn, ho.after_changes _ fun r hr => List.mem_of_mem_take hr⟩
    · generalize Ledger.backend.replay o.changes l = y
      obtain ⟨_ | _, t⟩ := y <;> exact .inr ⟨g', rfl⟩

/-- What is read and remembered of a ledger depends on what the overlay shows. -/
theorem fetch_ledger (o : Overlay) (h : Register) (p : Place) :
    ∃ o', ∀ l, o.Shown l h → o.fetch Ledger.backend p l = (.ok (h.get? p), o', l) := by
  cases hp : o.known? p with
  | some v =>
    refine ⟨o, fun l ⟨k, _, ho⟩ => ?_⟩
    rw [fetch, hp, ho.known? hp]
  | none =>
    refine ⟨{ o with fills := o.fills.insert p (h.get? p) }, fun l ⟨k, hk, ho⟩ => ?_⟩
    rw [fetch, hp, Ledger.backend, hk.get?, (ho.not_known? hp).1]

/-- What is found in a ledger, and is not hidden, depends on what the overlay shows. -/
theorem holders_alike (hx : o.Shown l h) (hx' : o.Shown l' h) (c : Address) (v : Value) :
    ((l.holders c v).filter fun x => !o.hides ⟨c, x⟩) =
      (l'.holders c v).filter fun x => !o.hides ⟨c, x⟩ := by
  obtain ⟨k, hk, ho⟩ := hx
  obtain ⟨k', hk', ho'⟩ := hx'
  have hf : (k.filter fun p => !o.hides p) = k'.filter fun p => !o.hides p :=
    Register.ext (List.append_cancel_left (ho.cells.symm.trans ho'.cells))
  have he := congrArg (Register.byDigest · c v.digest) hf
  rwa [Register.byDigest_filter, Register.byDigest_filter, ← hk.holders, ← hk'.holders] at he

/-- What is found in a ledger depends on what the overlay shows. -/
theorem search_ledger (hx : o.Shown l h) (c : Address) (v : Value) : ∃ a, ∀ l', o.Shown l' h →
    backend Ledger.backend (.holders c v) (o, l') = (.ok a, o, l') := by
  refine ⟨o.holders c v ++ (l.holders c v).filter fun x => !o.hides ⟨c, x⟩, fun l' hx' => ?_⟩
  rw [holders_alike hx hx']
  rfl

/-- Two ledgers over which an overlay shows one register look the same through it. -/
theorem perform_alike (hx : o.Shown l h) (hx' : o.Shown l' h) (p : Op) :
    (perform Ledger.backend p (o, l)).1 = (perform Ledger.backend p (o, l')).1 ∧
      (perform Ledger.backend p (o, l)).2.1 = (perform Ledger.backend p (o, l')).2.1 := by
  cases p with
  | request r =>
    cases r with
    | read c x =>
      obtain ⟨o', hf⟩ := fetch_ledger o h ⟨c, x⟩
      rw [perform, perform, backend, backend, hf l hx, hf l' hx']
      exact ⟨rfl, rfl⟩
    | write | erase | eraseEntry => exact ⟨rfl, rfl⟩
    | allocate c i =>
      obtain ⟨o', hf⟩ := fetch_ledger o h ⟨c, .root i⟩
      rw [perform, perform, backend, backend, hf l hx, hf l' hx']
      cases h.get? ⟨c, .root i⟩ <;> exact ⟨rfl, rfl⟩
    | holders c v =>
      obtain ⟨a, hs⟩ := search_ledger hx c v
      rw [perform, perform, hs l hx, hs l' hx']
      exact ⟨rfl, rfl⟩
  | lookup c v =>
    obtain ⟨a, hs⟩ := search_ledger hx c v
    rw [perform, perform, Backend.lookup, Backend.lookup, hs l hx, hs l' hx']
    exact ⟨rfl, rfl⟩
  | commit =>
    obtain ⟨t, hc, _⟩ := commit_ledger hx
    obtain ⟨t', hc', _⟩ := commit_ledger hx'
    rw [perform, perform, hc, hc']
    exact ⟨rfl, rfl⟩

/-! ### Runs -/

variable {f : Request → φ → Option StorageError × φ}

/-- An overlay over a ledger that may fail, and one over a ledger that does not, where the
    operations that have failed are left out, show one register at the end if they did at the
    start. Without the commits that have failed, they are the same and have the same replies. -/
theorem performAll_mended (keep : Bool) (ps : List Op) (g : φ) (hx : o.Shown l h)
    (hy : o'.Shown l' h) :
    let x := performAll (Faults.backend f Ledger.backend) ps (o, g, l)
    let y := performAll Ledger.backend (mended keep ps x.1) (o', l')
    (∃ k, x.2.1.Shown x.2.2.2 k ∧ ShowsOver Ledger.Shows y.2 k) ∧
      (keep = false → o' = o → y.1 = x.1.filter (!·.failed) ∧ y.2.1 = x.2.1) := by
  induction ps generalizing o o' l l' h g with
  | nil => exact ⟨⟨h, hx, hy⟩, fun _ ho => ⟨rfl, ho⟩⟩
  | cons p ps ih =>
    have hp := perform_faults (f := f) hx p g
    have ha : o' = o → (perform Ledger.backend p (o', l')).1 = (perform Ledger.backend p (o, l)).1 ∧
        (perform Ledger.backend p (o', l')).2.1 = (perform Ledger.backend p (o, l)).2.1 := by
      rintro rfl
      exact perform_alike hy hx p
    obtain ⟨hf, hl⟩ := perform_ledger hx p
    obtain ⟨_, hl'⟩ := perform_ledger hy p
    dsimp only at hp ⊢
    rw [performAll]
    generalize perform (Faults.backend f Ledger.backend) p (o, g, l) = x at hp
    generalize perform Ledger.backend p (o, l) = y at hp ha hf hl
    obtain ⟨a, o₁, g₁, l₁⟩ := x
    obtain ⟨b, o₂, l₂⟩ := y
    dsimp only
    rw [mended_cons]
    rcases hp with ⟨hb, rfl, hn⟩ | ⟨_, he⟩
    · dsimp only at hb hn
      by_cases hk : keep ∧ p = .commit
      · -- A commit that is kept leaves the register as it is.
        obtain ⟨rfl, rfl⟩ := hk
        rw [if_pos (by simp), performAll]
        exact ⟨(ih g₁ hn hl').1, fun h => nomatch h⟩
      · rw [if_neg (by simpa [hb] using hk)]
        obtain ⟨hs, hm⟩ := ih g₁ hn hy
        refine ⟨hs, fun h ho => ?_⟩
        rw [List.filter_cons_of_neg (by simp [hb])]
        exact hm h ho
    · cases he
      have hb : b.failed = false := hf
      rw [if_pos (by simp [hb]), performAll]
      obtain ⟨hs, hm⟩ := ih g₁ hl hl'
      refine ⟨hs, fun h ho => ?_⟩
      obtain ⟨hc, ho⟩ := ha ho
      obtain ⟨hm, ho⟩ := hm h ho
      refine ⟨?_, ho⟩
      rw [List.filter_cons_of_pos (by simp [hb])]
      exact congrArg₂ List.cons hc hm

/-- An overlay survives the failures of the ledger below. Whatever was done with it before, an
    operation that fails leaves it as it is, with all its changes. Its replies, and what it
    holds, are those that it has without all that has failed, over a ledger that does not
    fail. After the next commit that succeeds, this ledger has the same cells, found in the
    same order; and so it has if the commits that have failed are not left out. -/
theorem performAll_faults (hl : l.Reachable) (f : Request → φ → Option StorageError × φ) (g : φ)
    (ps : List Op) :
    let b := Faults.backend f Ledger.backend
    let x := performAll b ps (.empty, g, l)
    let y (keep : Bool) := performAll Ledger.backend (mended keep ps x.1) (.empty, l)
    (∀ p, (perform b p x.2).1.failed → (perform b p x.2).2.1 = x.2.1) ∧
      ((y false).1 = x.1.filter (!·.failed) ∧ (y false).2.1 = x.2.1) ∧
      ((perform b .commit x.2).1.failed = false → ∀ keep c,
        let s := (perform b .commit x.2).2.2.2
        let t := (perform Ledger.backend .commit (y keep).2).2.2
        (∀ i, s.get? c i = t.get? c i) ∧ ∀ v, s.holders c v = t.holders c v) := by
  intro b x y
  obtain ⟨h, hl⟩ := hl.shows
  have hn : Overlay.empty.Shown l h := ⟨h, hl, shows_empty h⟩
  refine ⟨fun p hp => ?_, (performAll_mended false ps g hn hn).2 rfl rfl, fun hc keep c => ?_⟩
  · -- An operation that does not fail by a fault does not fail at all, on a ledger.
    obtain ⟨⟨k, hx, _⟩, _⟩ := performAll_mended (f := f) false ps g hn hn
    rcases perform_faults (f := f) hx p x.2.2.1 with ⟨_, ho, _⟩ | ⟨g', he⟩
    · exact ho
    · rw [he, (perform_ledger hx p).1] at hp
      cases hp
  · obtain ⟨⟨k, hx, hy⟩, _⟩ := performAll_mended (f := f) keep ps g hn hn
    -- Both ledgers come to show what was seen through either overlay.
    have hs : (perform b .commit x.2).2.2.2.Shows k := by
      rcases perform_faults (f := f) hx .commit x.2.2.1 with ⟨hf, _⟩ | ⟨g', he⟩
      · rw [hf] at hc
        cases hc
      · rw [he]
        exact perform_commit hx
    have ht := perform_commit hy
    exact ⟨fun i => (hs.get? c i).trans (ht.get? c i).symm,
      fun v => (hs.holders c v).trans (ht.holders c v).symm⟩

/-- A commit fails after it has erased a slot, and a cell cannot be read then. A value is
    written again to the slot, and is found first after the commit that succeeds. -/
theorem performAll_faults_half_commit :
    let b := Faults.backend (Faults.scheduled (.backend "disk unavailable")) Ledger.backend
    let ps := [.request (.erase ⟨7⟩ 1), .request (.write ⟨7⟩ (.entry 2 9) (.ofWord64 5)), .commit,
      .request (.read ⟨7⟩ (.root 3)), .request (.write ⟨7⟩ (.root 1) (.ofWord64 5)),
      .lookup ⟨7⟩ (.ofWord64 5)]
    let x := performAll b ps (.empty, [false, true, true], .sample)
    let y (keep : Bool) := performAll Ledger.backend (mended keep ps x.1) (.empty, .sample)
    let s := (perform b .commit x.2).2.2.2
    (x.1.map Reply.failed = [false, false, true, true, false, false] ∧
        x.2.2.2.get? ⟨7⟩ (.root 1) = none ∧
        s.holders ⟨7⟩ (.ofWord64 5) = [.root 1, .entry 2 9]) ∧
      ((y false).1 = x.1.filter (!·.failed) ∧ (y false).2.1 = x.2.1) ∧
      ∀ keep c, let t := (perform Ledger.backend .commit (y keep).2).2.2
        (∀ i, s.get? c i = t.get? c i) ∧ ∀ v, s.holders c v = t.holders c v := by
  intro b ps
  obtain ⟨_, hy, hc⟩ := performAll_faults Ledger.reachable_sample
    (Faults.scheduled (.backend "disk unavailable")) [false, true, true] ps
  exact ⟨by decide +kernel, hy, hc (by decide +kernel)⟩

end Ledgers

end CreditMachine.Overlay
