import CreditMachine.Proofs.Overlay

/-!
# Commits

A commit replays the changes of an overlay on what is below: first the wipes,
and then the staged changes, the one made first first. Each written cell goes to
the front in its turn, so what results is the register of the overlay
(`Overlay.Shows.changes`). Nothing is lost with the absent roots that are not sent
down, because their slots were wiped.

* `Overlay.commit_shows`: after a commit, what is below shows what the overlay shows;
* `Overlay.Shows.after_changes`: so it does after a commit that comes after some
  of the changes were made already.
-/

namespace CreditMachine.Overlay

/-! ### The replay -/

/-- Slots that are erased in turn leave the cells of all the others, in their order. -/
theorem foldl_erase (l : List Place) (hl : ∀ p ∈ l, p.root = p) (k : Register) :
    (l.map fun p => Request.erase p.owner p.cell.slot).foldl Register.after k =
      k.filter fun p => p.root ∉ l := by
  induction l generalizing k with
  | nil => exact (Register.filter_eq_self (by simp)).symm
  | cons p l ih =>
    have hp : (⟨p.owner, .root p.cell.slot⟩ : Place) = p := hl p List.mem_cons_self
    rw [List.map_cons, List.foldl_cons, ih fun q hq => hl q (List.mem_cons_of_mem _ hq),
      Register.after, hp]
    apply Register.ext
    rw [Register.removeSlot, Register.cells_filter, Register.cells_filter, Register.cells_filter,
      List.filter_filter]
    congr 1
    funext e
    by_cases he : e.1.root = p <;> simp [he]

/-- A place is not in a list if it is neither the first one nor in the rest. -/
theorem isNone_lookup_cons {α : Type} (p q : Place) (w : α) (l : List (Place × α)) :
    (((p, w) :: l).lookup q).isNone = (decide (q ≠ p) && (l.lookup q).isNone) := by
  rw [List.lookup_cons]
  by_cases hq : q = p
  · simp [hq]
  · have hq' : (q == p) = false := by simpa using hq
    simp [hq', hq]

/-- Replaying the staged changes, the last one last, puts the written cells to
    the front, the last one first, and drops the others that are staged. -/
theorem foldl_change? (l : List (Place × Option Value)) (hl : (l.map Prod.fst).Nodup) (k : Register)
    (hk : ∀ p, (p, none) ∈ l → p.cell.key = none → k.get? p = none) :
    ((l.reverse.filterMap change?).foldl Register.after k).cells =
      written l ++ k.cells.filter fun e => (l.lookup e.1).isNone := by
  induction l with
  | nil => simp [written]
  | cons e l ih =>
    obtain ⟨p, w⟩ := e
    rw [List.map_cons, List.nodup_cons] at hl
    have ih := ih hl.2 fun q hq => hk q (List.mem_cons_of_mem _ hq)
    -- Changing `p` drops it from what was there, where it is not yet written.
    have hd : ((l.reverse.filterMap change?).foldl Register.after k).cells.filter (·.1 ≠ p) =
        written l ++ k.cells.filter fun e => (((p, w) :: l).lookup e.1).isNone := by
      rw [ih, List.filter_append, List.filter_eq_self.2, List.filter_filter]
      · congr 2
        funext e
        rw [isNone_lookup_cons]
      · rintro ⟨q, v⟩ hq
        have hne : q ≠ p := by
          rintro rfl
          exact hl.1 (List.mem_map.2 ⟨_, mem_written.1 hq, rfl⟩)
        simpa using hne
    rw [List.reverse_cons, List.filterMap_append, List.foldl_append]
    cases w with
    | some v =>
      rw [show [(p, some v)].filterMap change? = [.write p.owner p.cell v] from rfl]
      exact congrArg ((p, v) :: ·) hd
    | none =>
      obtain ⟨c, s, j⟩ := p
      cases j with
      | some j =>
        rw [show [((⟨c, s, some j⟩ : Place), (none : Option Value))].filterMap change? =
          [.eraseEntry c s j] from rfl]
        exact hd
      | none =>
        -- An absent root is not sent down, but it is absent below.
        rw [show [((⟨c, s, none⟩ : Place), (none : Option Value))].filterMap change? = [] from rfl,
          List.foldl_nil, ih]
        congr 1
        apply List.filter_congr
        intro e he
        have hne : e.1 ≠ ⟨c, s, none⟩ := by
          intro hp
          have hg := Register.get?_eq_some_iff.2 he
          rw [hp, hk _ List.mem_cons_self rfl] at hg
          cases hg
        rw [isNone_lookup_cons, decide_eq_true hne, Bool.true_and]

variable {o : Overlay} {k h : Register} {p : Place}

/-- The changes of an overlay lead from the register below to its own. -/
theorem Shows.changes (ho : o.Shows k h) : o.changes.foldl Register.after k = h := by
  have hw (q : Place) : q ∈ o.wiped.toList ↔ q ∈ o.wiped := Std.ExtTreeSet.mem_toList
  apply Register.ext
  rw [Overlay.changes, List.foldl_append, foldl_erase _ fun p hp => ho.roots p ((hw p).1 hp),
    foldl_change? _ ho.nodup, ho.cells, Register.cells_filter, List.filter_filter]
  · congr 2
    funext e
    simp only [hides, hw]
    cases o.staged.lookup e.1 <;> simp
  · -- After the wipes, a root that is staged as absent is absent.
    intro q hq hk
    have hr := ho.erased q hq hk
    rw [Register.get?_filter, Place.root_eq_self hk]
    simp [hw, hr]

/-! ### Changes made again -/

/-- Below an overlay, only what it does not hide matters. -/
theorem Shows.below (ho : o.Shows k h) {g : Register}
    (hg : (g.filter fun p => !o.hides p) = k.filter fun p => !o.hides p) : o.Shows g h where
  nodup := ho.nodup
  roots := ho.roots
  erased := ho.erased
  fills p v hv hs := by
    obtain ⟨hp, hk⟩ := ho.fills p v hv hs
    have hh : o.hides p = false := by simp [hides, hp, hs]
    have he := congrArg (Register.get? · p) hg
    rw [Register.get?_filter, Register.get?_filter, hh, Bool.not_false, if_pos rfl,
      if_pos rfl] at he
    exact ⟨hp, he.trans hk⟩
  cells := by
    rw [ho.cells]
    exact congrArg (_ ++ ·) (congrArg Register.cells hg).symm

/-- What a change of the overlay does below, the overlay hides. -/
theorem filter_after_change (ho : o.Shows k h) {r : Request} (hr : r ∈ o.changes) (g : Register) :
    ((g.after r).filter fun p => !o.hides p) = g.filter fun p => !o.hides p := by
  -- Dropping what is hidden does not matter.
  have drop (f : Place → Bool) (hf : ∀ p, o.hides p = false → f p = true) :
      ((g.filter f).filter fun p => !o.hides p) = g.filter fun p => !o.hides p := by
    apply Register.ext
    rw [Register.cells_filter, Register.cells_filter, Register.cells_filter, List.filter_filter]
    apply List.filter_congr
    intro e _
    cases hh : o.hides e.1 with
    | true => rfl
    | false => simp [hf _ hh]
  have hides_of_staged {p : Place} {w : Option Value} (hp : (p, w) ∈ o.staged) :
      o.hides p = true := by
    simp [hides, (lookup_eq_some_iff_mem ho.nodup).2 hp]
  rcases List.mem_append.1 hr with hr | hr
  · obtain ⟨p, hp, rfl⟩ := List.mem_map.1 hr
    have hp := Std.ExtTreeSet.mem_toList.1 hp
    refine drop _ fun q hq => ?_
    have hne : q.root ≠ p := by
      rintro rfl
      simp [hides, hp] at hq
    rw [show (⟨p.owner, .root p.cell.slot⟩ : Place) = p from ho.roots p hp]
    simpa using hne
  · obtain ⟨⟨p, w⟩, hp, hr⟩ := List.mem_filterMap.1 hr
    have hh := hides_of_staged (List.mem_reverse.1 hp)
    have hd : ((g.remove p).filter fun p => !o.hides p) = g.filter fun p => !o.hides p := by
      refine drop _ fun q hq => ?_
      have hne : q ≠ p := by
        rintro rfl
        rw [hh] at hq
        cases hq
      simpa using hne
    rw [← hd]
    cases w with
    | some v =>
      -- The cell that is put to the front is hidden.
      obtain rfl := Option.some.inj hr
      apply Register.ext
      rw [Register.after, Register.cells_filter, Register.cells_put,
        List.filter_cons_of_neg (by simpa using hh)]
      rfl
    | none =>
      obtain ⟨c, s, _ | j⟩ := p
      · cases hr
      · obtain rfl := Option.some.inj hr
        rfl

/-- Changes that were made below do not show through the overlay. So all of them
    can be made again, and lead where they led. -/
theorem Shows.after_changes (ho : o.Shows k h) (l : List Request) (hl : ∀ r ∈ l, r ∈ o.changes) :
    o.Shows (l.foldl Register.after k) h := by
  induction l generalizing k with
  | nil => exact ho
  | cons r l ih =>
    have hn := ho.below (filter_after_change ho (hl r List.mem_cons_self) k)
    exact ih hn fun r hr => hl r (List.mem_cons_of_mem _ hr)

/-! ### The overlay after a commit -/

/-- What a map holds after the insertions of a list: for the places of the list what it says, and
    what it held before for the others. -/
theorem getElem?_foldl_insert (l : List (Place × Option Value)) (hl : (l.map Prod.fst).Nodup)
    (m : Std.ExtTreeMap Place (Option Value) compare) (p : Place) :
    (l.foldl (fun m (e : Place × Option Value) => m.insert e.1 e.2) m)[p]? =
      (l.lookup p).or m[p]? := by
  induction l generalizing m with
  | nil => simp
  | cons e l ih =>
    obtain ⟨q, w⟩ := e
    rw [List.map_cons, List.nodup_cons] at hl
    rw [List.foldl_cons, ih hl.2, Std.ExtTreeMap.getElem?_insert, List.lookup_cons]
    by_cases hp : p = q
    · subst hp
      have hn : l.lookup p = none := by
        rw [List.lookup_eq_none_iff]
        intro e he
        have hne : p ≠ e.1 := fun hp => hl.1 (List.mem_map.2 ⟨e, he, hp.symm⟩)
        simpa using hne
      simp [hn]
    · have hp' : (p == q) = false := by simpa using hp
      have hq : compare q p ≠ .eq := by
        rw [ne_eq, Std.LawfulEqOrd.compare_eq_iff_eq]
        exact fun he => hp he.symm
      simp [hp', hq]

/-- After a commit, the overlay has no changes and knows what it knew, and that is what is below. -/
theorem Shows.settled (ho : o.Shows k h) : o.settled.Shows h h where
  nodup := List.nodup_nil
  roots p hp := absurd hp Std.ExtTreeSet.not_mem_empty
  erased p hp := absurd hp List.not_mem_nil
  fills p v hv _ := by
    refine ⟨Std.ExtTreeSet.not_mem_empty, ?_⟩
    rw [Overlay.settled, getElem?_foldl_insert _ ho.nodup] at hv
    rw [ho.get? p]
    cases hs : o.staged.lookup p with
    | some w =>
      -- What was staged is below by now, and was filled.
      simpa [hs] using hv
    | none =>
      rw [hs, Option.none_or] at hv
      obtain ⟨hp, hk⟩ := ho.fills p v hv hs
      simp [hp, hk]
  cells := by
    have hh (p : Place) : o.settled.hides p = false := by simp [hides, Overlay.settled]
    rw [List.filter_eq_self.2 fun e _ => by simp [hh]]
    rfl

/-- After its changes were made below, an overlay has none. -/
theorem isEmpty_changeSet_settled (o : Overlay) : o.settled.changeSet.isEmpty := by
  simp [ChangeSet.isEmpty, changeSet, settled]

variable {σ : Type} {b : Backend σ} {R : σ → Register → Prop} {s : σ}

/-- A commit over a backend that shows registers succeeds. What is below then shows
    what the overlay shows, and the overlay still shows it. -/
theorem commit_shows (hb : b.Shows R) (hs : R s k) (ho : o.Shows k h) :
    ∃ t, o.commit b s = (.ok o.pending, o.settled, t) ∧ R t h ∧ o.settled.Shows h h := by
  obtain ⟨ha, hn⟩ := hb.replay o.changes hs
  rw [ho.changes] at hn
  refine ⟨_, ?_, hn, ho.settled⟩
  rw [commit, show b.replay o.changes s = (.ok (), _) from Prod.ext ha rfl]

end CreditMachine.Overlay
