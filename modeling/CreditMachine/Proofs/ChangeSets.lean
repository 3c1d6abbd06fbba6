import CreditMachine.Proofs.Recovery
import Mathlib.Data.List.Sort

/-!
# Canonical change sets

What an overlay holds is exported as a change set: the slots to erase and the cells to change, in
the order of the cells. It says what the overlay shows (`Overlay.Reachable.get?_replay`), and
nothing about how the overlay came to it.

Two overlays have the same change set if they hold the same of every slot
(`Overlay.changeSet_eq_iff`). What an overlay holds of a slot is made by the operations that may
change this slot, one after the other; all others keep it, and reading does not matter
(`Overlay.performAll_agreeAt`). So the change set is the same however the operations on different
slots are interleaved, and whatever is read in between (`Overlay.changeSet_canonical`).
-/

namespace CreditMachine

/-- The root of the slot that a request may change. -/
def Request.slot? : Request → Option Place
  | .read .. | .holders .. => none
  | .write c x _ => some ⟨c, .root x.slot⟩
  | .erase c s | .eraseEntry c s _ | .allocate c s => some ⟨c, .root s⟩

namespace Ledger

/-- Gives a cell a value, or none to remove it. -/
def assign (l : Ledger) : Place × Option Value → Ledger
  | (p, some v) => l.modify p.owner (·.put p.cell v)
  | (p, none) => l.modify p.owner (·.remove p.cell)

/-- Makes the changes of a change set: erases the slots, then changes the cells. -/
def replay (d : ChangeSet) (l : Ledger) : Ledger :=
  d.cells.foldl assign (d.wiped.foldl (fun l (c, s) => l.modify c (·.removeSlot s)) l)

variable {l : Ledger} {h : Register}

/-- Slots that are erased one after the other are all absent afterwards, and nothing else is. -/
theorem Shows.erase_all (hl : l.Shows h) (ws : List (Address × Slot)) :
    ∃ k, (ws.foldl (fun l (c, s) => l.modify c (·.removeSlot s)) l).Shows k ∧
      ∀ p : Place, k.get? p = if (p.owner, p.cell.slot) ∈ ws then none else h.get? p := by
  induction ws generalizing l h with
  | nil => exact ⟨h, hl, fun _ => rfl⟩
  | cons w ws ih =>
    obtain ⟨c, s⟩ := w
    obtain ⟨k, hk, hg⟩ := ih (hl.removeSlot c s)
    refine ⟨k, hk, fun p => ?_⟩
    rw [hg, Register.get?_removeSlot]
    have hp : p.root = ⟨c, .root s⟩ ↔ (p.owner, p.cell.slot) = (c, s) := by
      simp [Place.root, Cell.root]
    simp only [hp, List.mem_cons]
    split <;> split <;> simp_all

/-- Cells that are assigned one after the other have their values afterwards, in whatever order they
    come, since none comes twice. -/
theorem Shows.assign_all (hl : l.Shows h) {cs : List (Place × Option Value)}
    (hc : (cs.map Prod.fst).Nodup) :
    ∃ k, (cs.foldl assign l).Shows k ∧ ∀ p, k.get? p = (cs.lookup p).getD (h.get? p) := by
  induction cs generalizing l h with
  | nil => exact ⟨h, hl, fun _ => rfl⟩
  | cons e cs ih =>
    obtain ⟨q, w⟩ := e
    rw [List.map_cons, List.nodup_cons] at hc
    have hq : cs.lookup q = none := by
      rw [List.lookup_eq_none_iff]
      intro e he
      rw [bne_iff_ne]
      rintro rfl
      exact hc.1 (List.mem_map.2 ⟨e, he, rfl⟩)
    have hn : ∃ h', (assign l (q, w)).Shows h' ∧
        ∀ p, h'.get? p = if p = q then w else h.get? p := by
      cases w with
      | some v => exact ⟨_, hl.put q.owner q.cell v, fun p => Register.get?_put⟩
      | none => exact ⟨_, hl.remove q.owner q.cell, fun p => Register.get?_remove⟩
    obtain ⟨h', hl', hg'⟩ := hn
    obtain ⟨k, hk, hg⟩ := ih hl' hc.2
    refine ⟨k, hk, fun p => ?_⟩
    rw [hg, hg', List.lookup_cons]
    by_cases hp : p = q
    · subst hp
      simp [hq]
    · have hp' : (p == q) = false := by simpa using hp
      rw [hp', if_neg hp]

end Ledger

namespace Overlay

variable {σ : Type} {b : Backend σ} {o o' : Overlay} {k k' h h' : Register} {l l' : Ledger}
  {p q : Place}

/-! ### Order -/

/-- A change set lists the staged changes, and only these. -/
theorem mem_cells {e : Place × Option Value} : e ∈ o.changeSet.cells ↔ e ∈ o.staged := by
  rw [changeSet]
  exact List.mem_mergeSort

namespace Shows

/-- The changed cells are listed in strictly increasing order. -/
theorem cells_sorted (ho : o.Shows k h) :
    o.changeSet.cells.Pairwise fun a b => compare a.1 b.1 = .lt := by
  have hp : o.changeSet.cells.Perm o.staged := List.mergeSort_perm _ _
  have hn : (o.changeSet.cells.map Prod.fst).Nodup := (hp.map _).nodup_iff.2 ho.nodup
  have hs : o.changeSet.cells.Pairwise fun a b => (compare a.1 b.1).isLE :=
    List.pairwise_mergeSort (fun _ _ _ => Std.TransCmp.isLE_trans) (fun a b => by
      have hs : compare b.1 a.1 = (compare a.1 b.1).swap := Std.OrientedCmp.eq_swap
      rw [hs]
      cases compare a.1 b.1 <;> rfl) _
  refine hs.imp₂ (fun a b hle hne => ?_) (List.pairwise_map.1 hn)
  rcases Ordering.isLE_iff_eq_lt_or_eq_eq.1 hle with h | h
  · exact h
  · exact absurd (Std.LawfulEqOrd.eq_of_compare h) hne

/-- A wiped slot is kept as its root, and listed as contract and slot. -/
theorem mem_wiped (ho : o.Shows k h) :
    p ∈ o.wiped ↔ p.root = p ∧ (p.owner, p.cell.slot) ∈ o.changeSet.wiped := by
  have hr : p.root = p → ∀ q ∈ o.wiped,
      (q.owner, q.cell.slot) = (p.owner, p.cell.slot) → q = p := by
    intro hp q hq he
    rw [← ho.roots q hq, ← hp, Place.root, Place.root, (Prod.mk.inj he).1, (Prod.mk.inj he).2]
  simp only [changeSet, List.mem_map, Std.ExtTreeSet.mem_toList]
  constructor
  · exact fun hp => ⟨ho.roots p hp, p, hp, rfl⟩
  · rintro ⟨hp, q, hq, he⟩
    exact hr hp q hq he ▸ hq

/-- The wiped slots are listed in strictly increasing order. -/
theorem wiped_sorted (ho : o.Shows k h) :
    o.changeSet.wiped.Pairwise fun a b =>
      compareLex (compareOn Prod.fst) (compareOn Prod.snd) a b = .lt := by
  rw [changeSet, List.pairwise_map]
  refine Std.ExtTreeSet.ordered_toList.imp_of_mem fun {p q} hp hq hpq => ?_
  have hp := ho.roots p (Std.ExtTreeSet.mem_toList.1 hp)
  have hq := ho.roots q (Std.ExtTreeSet.mem_toList.1 hq)
  -- Places of roots differ in the contract or in the slot.
  have hr : compare p.root q.root = (compare p.owner q.owner).then
      ((compare p.cell.slot q.cell.slot).then (compare (none : Option Key) none)) := rfl
  rw [← hp, ← hq, hr, Std.ReflOrd.compare_self, Ordering.then_eq] at hpq
  exact hpq

end Shows

/-! ### Slots -/

/-- Two overlays hold the same of the slot with the root `p`. -/
structure AgreeAt (p : Place) (o o' : Overlay) : Prop where
  wiped : p ∈ o.wiped ↔ p ∈ o'.wiped
  staged : ∀ q, q.root = p → o.staged.lookup q = o'.staged.lookup q

namespace AgreeAt

theorem refl (p : Place) (o : Overlay) : AgreeAt p o o := ⟨.rfl, fun _ _ => rfl⟩

theorem symm (ha : AgreeAt p o o') : AgreeAt p o' o :=
  ⟨ha.wiped.symm, fun q hq => (ha.staged q hq).symm⟩

theorem trans {u : Overlay} (ha : AgreeAt p o o') (hb : AgreeAt p o' u) : AgreeAt p o u :=
  ⟨ha.wiped.trans hb.wiped, fun q hq => (ha.staged q hq).trans (hb.staged q hq)⟩

/-- A change of some cell, made in both overlays, leaves them agreed. -/
theorem stage (ha : AgreeAt p o o') (r : Place) (v : Option Value) :
    AgreeAt p (o.stage r v) (o'.stage r v) where
  wiped := ha.wiped
  staged q hq := by
    by_cases he : q = r
    · simp [Overlay.stage, he]
    · rw [Shows.lookup_stage v he, Shows.lookup_stage v he, ha.staged q hq]

/-- A wipe of some slot, made in both overlays, leaves them agreed. -/
theorem wipe (ha : AgreeAt p o o') (c : Address) (s : Slot) :
    AgreeAt p (o.wipe c s) (o'.wipe c s) where
  wiped := by
    rw [wipe_eq, wipe_eq, Std.ExtTreeSet.mem_insert, Std.ExtTreeSet.mem_insert, ha.wiped]
  staged q hq := by
    by_cases he : q.root = ⟨c, .root s⟩
    · -- Of the slot, only the absent root is staged.
      have hl (u : Overlay) := lookup_filter u.staged (fun r => !decide (r.root = ⟨c, .root s⟩)) q
      simp only [he, decide_true, Bool.not_true, Bool.false_eq_true, if_false] at hl
      rw [wipe_eq, wipe_eq, List.lookup_cons, List.lookup_cons]
      simp only [ne_eq, decide_not]
      rw [hl, hl]
    · rw [Shows.lookup_wipe c s q he, Shows.lookup_wipe c s q he, ha.staged q hq]

/-- A read may fill a cell, but fills are no changes. -/
theorem fetch (b : Backend σ) (o : Overlay) (r : Place) (s : σ) :
    AgreeAt p (o.fetch b r s).2.1 o := by
  rw [Overlay.fetch]
  split
  · exact .refl p o
  · split
    · exact ⟨.rfl, fun _ _ => rfl⟩
    · exact .refl p o

/-- A change of another slot does not count. -/
theorem stage_other (r : Place) (hr : r.root ≠ p) (v : Option Value) :
    AgreeAt p (o.stage r v) o where
  wiped := .rfl
  staged q hq := Shows.lookup_stage v fun he => hr (by rw [← he, hq])

/-- Nor does the wipe of another slot. -/
theorem wipe_other {c : Address} {s : Slot} (hc : (⟨c, .root s⟩ : Place) ≠ p) :
    AgreeAt p (o.wipe c s) o where
  wiped := by
    rw [Overlay.wipe_eq, Std.ExtTreeSet.mem_insert, Std.LawfulEqOrd.compare_eq_iff_eq]
    simp [hc]
  staged q hq := Shows.lookup_wipe c s q fun he => hc (by rw [← he, hq])

end AgreeAt

/-- Overlays that are used right have the same change set if they hold the same of every slot. -/
theorem changeSet_eq_iff (ho : o.Shows k h) (ho' : o'.Shows k' h') :
    o.changeSet = o'.changeSet ↔ ∀ p, AgreeAt p o o' := by
  have hl {u : Overlay} {k h : Register} (hu : u.Shows k h) (q : Place) (v : Option Value) :
      u.staged.lookup q = some v ↔ (q, v) ∈ u.changeSet.cells := by
    rw [lookup_eq_some_iff_mem hu.nodup, mem_cells]
  constructor
  · intro he p
    refine ⟨?_, fun q _ => Option.ext fun v => ?_⟩
    · rw [ho.mem_wiped, ho'.mem_wiped, he]
    · rw [hl ho, hl ho', he]
  · intro ha
    have hw : o.wiped = o'.wiped := Std.ExtTreeSet.ext_mem fun p => (ha p).wiped
    have hi : Std.Irrefl fun a b : Place × Option Value => compare a.1 b.1 = .lt :=
      ⟨fun a => by simp [Std.ReflOrd.compare_self]⟩
    have hs : Std.Antisymm fun a b : Place × Option Value => compare a.1 b.1 = .lt :=
      ⟨fun a b hab hba => absurd hba (Std.OrientedCmp.not_lt_of_lt hab)⟩
    have hc : o.changeSet.cells = o'.changeSet.cells := by
      refine ho.cells_sorted.eq_of_mem_iff ho'.cells_sorted fun (q, v) => ?_
      rw [← hl ho, ← hl ho', (ha q.root).staged q rfl]
    rw [changeSet, changeSet, ChangeSet.mk.injEq, hw]
    exact ⟨rfl, hc⟩

/-! ### Operations -/

/-- The root of the slot that an operation may change. -/
def Op.slot? : Op → Option Place
  | .request r => r.slot?
  | .lookup .. | .commit => none

/-- An operation keeps what an overlay holds of the slots that it does not change. -/
theorem agreeAt_perform {f : Op} (hf : f.slot? ≠ some p) (hc : f ≠ .commit) (s : σ) :
    AgreeAt p (perform b f (o, s)).2.1 o := by
  cases f with
  | request r =>
    rw [perform]
    cases r with
    | read c x => exact .fetch b o ⟨c, x⟩ s
    | write c x v => exact .stage_other ⟨c, x⟩ (fun he => hf (congrArg some he)) _
    | erase c i => exact .wipe_other fun he => hf (congrArg some he)
    | eraseEntry c i j => exact .stage_other ⟨c, .entry i j⟩ (fun he => hf (congrArg some he)) _
    | allocate c i =>
      have hn := AgreeAt.fetch (p := p) b o ⟨c, .root i⟩ s
      rw [backend]
      generalize o.fetch b ⟨c, .root i⟩ s = x at hn
      rcases x with ⟨_ | _ | _, _, _⟩
      · exact hn
      · exact .trans (.stage_other ⟨c, .root i⟩ (fun he => hf (congrArg some he)) _) hn
      · exact hn
    | holders c v =>
      rw [backend]
      generalize b (.holders c v) s = x
      obtain ⟨_ | _, _⟩ := x <;> exact .refl p o
  | lookup c v =>
    rw [perform, Backend.lookup, backend]
    generalize b (.holders c v) s = x
    obtain ⟨_ | _, _⟩ := x <;> exact .refl p o
  | commit => exact absurd rfl hc

/-- The cells of a slot are the same if the overlays hold the same of it, over the same cells. -/
theorem AgreeAt.get? (ha : AgreeAt p o o') (hx : o.Shown l h) (hy : o'.Shown l' h')
    (hl : ∀ c x, l.get? c x = l'.get? c x) (hq : q.root = p) : h.get? q = h'.get? q := by
  obtain ⟨k, hk, ho⟩ := hx
  obtain ⟨k', hk', ho'⟩ := hy
  have hg : k.get? q = k'.get? q := by
    rw [← hk.get? q.owner q.cell, ← hk'.get? q.owner q.cell, hl]
  rw [ho.get?, ho'.get?, ha.staged q hq, hg]
  simp only [hq, ha.wiped]

/-- An operation changes a slot alike if the overlays hold the same of it, over the same cells. -/
theorem AgreeAt.perform (ha : AgreeAt p o o') (hx : o.Shown l h) (hy : o'.Shown l' h')
    (hl : ∀ c x, l.get? c x = l'.get? c x) {f : Op} (hf : f.slot? = some p) :
    AgreeAt p (perform Ledger.backend f (o, l)).2.1 (perform Ledger.backend f (o', l')).2.1 := by
  cases f with
  | request r =>
    rw [Overlay.perform, Overlay.perform]
    cases r with
    | read | holders => cases hf
    | write c x v => exact ha.stage _ _
    | erase c i => exact ha.wipe c i
    | eraseEntry c i j => exact ha.stage _ _
    | allocate c i =>
      have hg := ha.get? hx hy hl (q := ⟨c, .root i⟩) (Option.some.inj hf)
      have hn := (AgreeAt.fetch (p := p) Ledger.backend o ⟨c, .root i⟩ l).trans
        (ha.trans (AgreeAt.fetch Ledger.backend o' ⟨c, .root i⟩ l').symm)
      obtain ⟨u, hu⟩ := fetch_ledger o h ⟨c, .root i⟩
      obtain ⟨u', hu'⟩ := fetch_ledger o' h' ⟨c, .root i⟩
      rw [backend, backend, hu l hx, hu' l' hy, hg]
      rw [hu l hx, hu' l' hy] at hn
      cases h'.get? ⟨c, .root i⟩ with
      | none => exact hn.stage _ _
      | some v => exact hn
  | lookup | commit => cases hf

/-- Operations make of a slot what those of them make of it that may change it. -/
theorem performAll_agreeAt {ps : List Op} (hp : .commit ∉ ps) (ha : AgreeAt p o o')
    (hx : o.Shown l h) (hy : o'.Shown l' h') (hl : ∀ c x, l.get? c x = l'.get? c x) :
    AgreeAt p (performAll Ledger.backend ps (o, l)).2.1
      (performAll Ledger.backend (ps.filter (·.slot? = some p)) (o', l')).2.1 := by
  induction ps generalizing o o' h h' with
  | nil => exact ha
  | cons f ps ih =>
    rw [List.mem_cons, not_or] at hp
    have hf : f ≠ .commit := Ne.symm hp.1
    have hn {u : Overlay} {l : Ledger} {h : Register} (hu : u.Shown l h) :
        (perform Ledger.backend f (u, l)).2.1.Shown l (f.after h) := by
      have hs := (perform_ledger hu f).2
      rwa [ShowsOver, perform_below hf] at hs
    have hb (u : Overlay) (l : Ledger) : (perform Ledger.backend f (u, l)).2 =
        ((perform Ledger.backend f (u, l)).2.1, l) := Prod.ext rfl (perform_below hf u l)
    rw [performAll, List.filter_cons]
    dsimp only
    rw [hb o l]
    by_cases hs : f.slot? = some p
    · rw [if_pos (by simpa using hs), performAll]
      dsimp only
      rw [hb o' l']
      exact ih hp.2 (ha.perform hx hy hl hs) (hn hx) (hn hy)
    · rw [if_neg (by simpa using hs)]
      exact ih hp.2 ((agreeAt_perform hs hf l).trans ha) (hn hx) hy

/-- Without a commit, nothing happens below. -/
theorem performAll_below {ps : List Op} (hp : .commit ∉ ps) (o : Overlay) (l : Ledger) :
    (performAll Ledger.backend ps (o, l)).2.2 = l := by
  induction ps generalizing o l with
  | nil => rfl
  | cons f ps ih =>
    rw [List.mem_cons, not_or] at hp
    exact (ih hp.2 _ _).trans (perform_below (Ne.symm hp.1) o l)

/-! ### Overlays over ledgers -/

/-- The overlays, over ledgers, that operations make of new ones. -/
inductive Reachable : Overlay × Ledger → Prop
  | new {l : Ledger} : l.Reachable → Reachable (empty, l)
  | perform {x : Overlay × Ledger} (f : Op) : Reachable x →
    Reachable (perform Ledger.backend f x).2

namespace Reachable

variable {x : Overlay × Ledger}

/-- Overlays that are reached over a ledger show a register. -/
theorem shown (hx : Reachable x) : ∃ h, x.1.Shown x.2 h := by
  induction hx with
  | new hl =>
    obtain ⟨h, hl⟩ := hl.shows
    exact ⟨h, h, hl, shows_empty h⟩
  | perform f _ ih =>
    obtain ⟨h, hx⟩ := ih
    exact ⟨f.after h, (perform_ledger hx f).2⟩

/-- What is done next leads from a reached overlay to a reached one. -/
theorem performAll (hx : Reachable x) (ps : List Op) :
    Reachable (performAll Ledger.backend ps x).2 := by
  induction ps generalizing x with
  | nil => exact hx
  | cons f ps ih => exact ih (hx.perform f)

/-- The changes, made in any order, give the ledger the cells that the overlay shows. -/
theorem get?_replay (hx : Reachable x) {ws : List (Address × Slot)}
    {cs : List (Place × Option Value)} (hw : ws.Perm x.1.changeSet.wiped)
    (hc : cs.Perm x.1.changeSet.cells) (c : Address) (i : Cell) :
    (backend Ledger.backend (.read c i) x).1 = .ok ((Ledger.replay ⟨ws, cs⟩ x.2).get? c i) := by
  obtain ⟨h, k, hk, ho⟩ := hx.shown
  have hn : (cs.map Prod.fst).Nodup :=
    ((hc.trans (List.mergeSort_perm _ _)).map _).nodup_iff.2 ho.nodup
  obtain ⟨k₁, hk₁, hg₁⟩ := hk.erase_all ws
  obtain ⟨k₂, hk₂, hg₂⟩ := hk₁.assign_all hn
  have hl : cs.lookup ⟨c, i⟩ = x.1.staged.lookup ⟨c, i⟩ := by
    refine Option.ext fun v => ?_
    rw [lookup_eq_some_iff_mem hn, lookup_eq_some_iff_mem ho.nodup, hc.mem_iff, mem_cells]
  have hr : (⟨c, i⟩ : Place).root ∈ x.1.wiped ↔ (c, i.slot) ∈ ws := by
    rw [ho.mem_wiped, hw.mem_iff]
    exact and_iff_right rfl
  have hs : (Ledger.replay ⟨ws, cs⟩ x.2).get? c i = h.get? ⟨c, i⟩ := by
    rw [Ledger.replay, hk₂.get?, hg₂, hg₁, ho.get?, hl]
    simp only [hr]
  rw [hs]
  exact (fetch_shows Ledger.backend_shows hk ho ⟨c, i⟩).1

end Reachable

/-- Change sets are canonical. Whatever was done with an overlay over a ledger, and after any
    operations without a commit, the change set lists slots and cells in strictly increasing
    order. Made in any order, the changes give the ledger the cells that the overlay shows. The
    change set is the same for all operations that change each slot in the same way, if it was the
    same before them and the ledgers have the same cells. -/
theorem changeSet_canonical {x : Overlay × Ledger} (hx : Reachable x) {ps : List Op}
    (hp : .commit ∉ ps) :
    let z := (performAll Ledger.backend ps x).2
    let d := z.1.changeSet
    ((d.wiped.Pairwise fun a b => compareLex (compareOn Prod.fst) (compareOn Prod.snd) a b = .lt) ∧
        d.cells.Pairwise fun a b => compare a.1 b.1 = .lt) ∧
      (∀ ws cs, ws.Perm d.wiped → cs.Perm d.cells → ∀ c i,
        (backend Ledger.backend (.read c i) z).1 =
          .ok ((Ledger.replay ⟨ws, cs⟩ x.2).get? c i)) ∧
      ∀ y, Reachable y → (∀ c i, y.2.get? c i = x.2.get? c i) →
        y.1.changeSet = x.1.changeSet → ∀ qs : List Op, .commit ∉ qs →
          (∀ p, qs.filter (·.slot? = some p) = ps.filter (·.slot? = some p)) →
            (performAll Ledger.backend qs y).2.1.changeSet = d := by
  intro z d
  have hz : Reachable z := hx.performAll ps
  obtain ⟨h, hx⟩ := hx.shown
  obtain ⟨k, _, _, ho⟩ := hz.shown
  refine ⟨⟨ho.wiped_sorted, ho.cells_sorted⟩, fun ws cs hw hc c i => ?_, ?_⟩
  · have hb : z.2 = x.2 := performAll_below hp x.1 x.2
    rw [hz.get?_replay hw hc, hb]
  · intro y hy hl hd qs hq hf
    obtain ⟨_, _, _, hu⟩ := (hy.performAll qs).shown
    obtain ⟨g, hy⟩ := hy.shown
    obtain ⟨_, _, hx'⟩ := id hx
    obtain ⟨_, _, hy'⟩ := id hy
    -- Change sets are equal if the overlays agree at every slot, and what is done at one slot is
    -- the same in both orders.
    rw [changeSet_eq_iff hu ho]
    intro p
    have ha := (changeSet_eq_iff hy' hx').1 hd p
    have hps := performAll_agreeAt hp (.refl p x.1) hx hx fun _ _ => rfl
    have hqs := performAll_agreeAt hq ha hy hx hl
    rw [hf p] at hqs
    exact hqs.trans hps.symm

/-- One slot is erased and another one is filled, in two orders, with some reading in between. -/
theorem changeSet_canonical_slots :
    let ps : List Op := [.request (.erase ⟨7⟩ 1), .request (.eraseEntry ⟨7⟩ 1 3),
      .request (.write ⟨7⟩ (.entry 2 9) (.ofWord64 5)), .request (.allocate ⟨7⟩ 2)]
    let qs : List Op := [.request (.write ⟨7⟩ (.entry 2 9) (.ofWord64 5)),
      .lookup ⟨7⟩ (.ofWord64 5), .request (.erase ⟨7⟩ 1), .request (.read ⟨7⟩ (.root 2)),
      .request (.allocate ⟨7⟩ 2), .request (.eraseEntry ⟨7⟩ 1 3)]
    let z := (performAll Ledger.backend ps (empty, .sample)).2
    let d := z.1.changeSet
    z.1.staged.map (·.1.cell) = [.root 2, .entry 2 9, .entry 1 3, .root 1] ∧
      (∀ c i, (backend Ledger.backend (.read c i) z).1 =
        .ok ((Ledger.replay ⟨d.wiped, d.cells.reverse⟩ .sample).get? c i)) ∧
      (performAll Ledger.backend qs (empty, .sample)).2.1.changeSet = d := by
  intro ps qs z d
  obtain ⟨_, hr, hc⟩ :=
    changeSet_canonical (.new Ledger.reachable_sample) (show .commit ∉ ps by decide)
  refine ⟨by decide +kernel, hr _ _ (.refl _) (List.reverse_perm _), ?_⟩
  refine hc _ (.new Ledger.reachable_sample) (fun _ _ => rfl) rfl qs (by decide) fun p => ?_
  by_cases hs : ∃ f ∈ ps ++ qs, f.slot? = some p
  · obtain ⟨f, hf, hs⟩ := hs
    have hm : ∀ f ∈ ps ++ qs, f.slot? ∈ [none, some ⟨⟨7⟩, .root 1⟩, some ⟨⟨7⟩, .root 2⟩] := by
      decide
    have hp : p = ⟨⟨7⟩, .root 1⟩ ∨ p = ⟨⟨7⟩, .root 2⟩ := by
      simpa [hs] using hm f hf
    rcases hp with rfl | rfl <;> decide
  · -- Neither order has anything for other slots.
    have hn (fs : List Op) (hf : ∀ f ∈ fs, f ∈ ps ++ qs) :
        fs.filter (·.slot? = some p) = [] :=
      List.filter_eq_nil_iff.2 fun f h he => hs ⟨f, hf f h, of_decide_eq_true he⟩
    rw [hn ps fun _ => List.mem_append_left _, hn qs fun _ => List.mem_append_right _]

end Overlay

end CreditMachine
