import CreditMachine.Proofs.Ranges
import CreditMachine.Proofs.Register

/-!
# An overlay shows a register

An overlay over storage that shows a register shows one of its own: the staged
cells that are present, the last staged first, and then the cells of the register
below that the overlay does not hide (`Overlay.Shows`). A change puts to the front
what the request puts to the front, and hides what it removes.

* `Overlay.Shows.stage_some`, `stage_none`, `wipe`: what the changes do to the register;
* `Overlay.backend_shows`: an overlay answers as its register.
-/

namespace CreditMachine

/-- A place whose cell has no key is the root of its slot. -/
theorem Place.root_eq_self {p : Place} (h : p.cell.key = none) : p.root = p := by
  obtain ⟨c, s, k⟩ := p
  cases h
  rfl

namespace Overlay

/-- The staged cells that are present. -/
def written (l : List (Place × Option Value)) : List (Place × Value) :=
  l.filterMap fun e => e.2.map (e.1, ·)

/-- The overlay `o`, over storage that shows `k`, shows `h`. -/
structure Shows (o : Overlay) (k h : Register) : Prop where
  /-- A cell is staged once. -/
  nodup : (o.staged.map Prod.fst).Nodup
  /-- Wiped slots are given by their roots. -/
  roots : ∀ p ∈ o.wiped, p.root = p
  /-- A root is erased together with its slot. -/
  erased : ∀ p, (p, none) ∈ o.staged → p.cell.key = none → p ∈ o.wiped
  /-- What was filled and is not staged is still what is below. -/
  fills : ∀ p v, o.fills[p]? = some v → o.staged.lookup p = none →
    p.root ∉ o.wiped ∧ k.get? p = v
  cells : h.cells = written o.staged ++ k.cells.filter fun e => !o.hides e.1

variable {o : Overlay} {k h : Register} {p q : Place} {v : Value}

theorem mem_written {l : List (Place × Option Value)} :
    (p, v) ∈ written l ↔ (p, some v) ∈ l := by
  simp only [written, List.mem_filterMap, Option.map_eq_some_iff, Prod.mk.injEq]
  constructor
  · rintro ⟨⟨p, w⟩, he, v, rfl, rfl, rfl⟩
    exact he
  · exact fun he => ⟨_, he, v, rfl, rfl, rfl⟩

theorem written_filter (l : List (Place × Option Value)) (f : Place → Bool) :
    written (l.filter fun e => f e.1) = (written l).filter fun e => f e.1 := by
  rw [written, List.filterMap_filter, written, List.filter_filterMap]
  congr 1
  funext e
  obtain ⟨p, w⟩ := e
  cases w <;> cases hf : f p <;> simp [hf, Option.filter]

/-- A fresh overlay shows what is below. -/
theorem shows_empty (k : Register) : empty.Shows k k where
  nodup := List.nodup_nil
  roots p hp := absurd hp Std.ExtTreeSet.not_mem_empty
  erased p hp := absurd hp List.not_mem_nil
  fills p v hv := by simp [empty] at hv
  cells := by
    have hh (p : Place) : empty.hides p = false := by simp [hides, empty]
    rw [List.filter_eq_self.2 fun e _ => by simp [hh]]
    rfl

namespace Shows

/-! ### Reading -/

/-- A cell is seen if it is staged, or if it is below and not hidden. -/
theorem mem_cells (ho : o.Shows k h) :
    (p, v) ∈ h.cells ↔ (p, some v) ∈ o.staged ∨ (p, v) ∈ k.cells ∧ o.hides p = false := by
  rw [ho.cells, List.mem_append, mem_written, List.mem_filter, Bool.not_eq_true']

/-- A cell is as it is staged, else absent in a wiped slot, else as below. -/
theorem get? (ho : o.Shows k h) (p : Place) :
    h.get? p = (o.staged.lookup p).getD (if p.root ∈ o.wiped then none else k.get? p) := by
  apply Option.ext
  intro v
  rw [Register.get?_eq_some_iff, ho.mem_cells]
  cases hs : o.staged.lookup p with
  | some w =>
    -- The cell is staged, so what is below does not matter.
    have hw := (lookup_eq_some_iff_mem ho.nodup).1 hs
    have hh : o.hides p = true := by simp [hides, hs]
    have hv : (p, some v) ∈ o.staged ↔ w = some v := by
      rw [← lookup_eq_some_iff_mem ho.nodup, hs, Option.some.injEq]
    simp [hv, hh]
  | none =>
    have hv : (p, some v) ∉ o.staged := by
      rw [← lookup_eq_some_iff_mem ho.nodup, hs]
      simp
    by_cases hp : p.root ∈ o.wiped <;> simp [hv, hides, hs, hp, Register.get?_eq_some_iff]

/-- What is not hidden shows through. -/
theorem get?_of_not_hides (ho : o.Shows k h) (hp : o.hides p = false) : h.get? p = k.get? p := by
  rw [hides, Bool.or_eq_false_iff, decide_eq_false_iff_not, Option.isSome_eq_false_iff,
    Option.isNone_iff_eq_none] at hp
  rw [ho.get? p, hp.2, Option.getD_none, if_neg hp.1]

/-- What an overlay knows of a cell is what is seen of it. -/
theorem known? (ho : o.Shows k h) {w : Option Value} (hw : o.known? p = some w) :
    h.get? p = w := by
  rw [ho.get? p]
  unfold Overlay.known? at hw
  split at hw
  · next hs => simpa [hs] using hw
  · next hs =>
    split at hw
    · next hf =>
      obtain ⟨hp, hk⟩ := ho.fills p _ hf hs
      simpa [hs, hp, hk] using hw
    · split at hw
      · next hp => simpa [hs, hp] using hw
      · cases hw

/-- What an overlay does not know it has to ask for, and no wiped slot is among that. -/
theorem not_known? (ho : o.Shows k h) (hw : o.known? p = none) :
    h.get? p = k.get? p ∧ p.root ∉ o.wiped := by
  rw [ho.get? p]
  unfold Overlay.known? at hw
  split at hw
  · cases hw
  · next hs =>
    split at hw
    · cases hw
    · split at hw
      · cases hw
      · next hp => exact ⟨by simp [hs, hp], hp⟩

/-- A cell that was asked for is remembered. That changes nothing of what is seen. -/
theorem fill (ho : o.Shows k h) (hp : p.root ∉ o.wiped) :
    Overlay.Shows { o with fills := o.fills.insert p (k.get? p) } k h where
  nodup := ho.nodup
  roots := ho.roots
  erased := ho.erased
  fills q w hq hs := by
    rw [Std.ExtTreeMap.getElem?_insert] at hq
    by_cases he : p = q
    · subst he
      rw [if_pos Std.ReflOrd.compare_self] at hq
      exact ⟨hp, Option.some.inj hq⟩
    · rw [if_neg (by rwa [Std.LawfulEqOrd.compare_eq_iff_eq])] at hq
      exact ho.fills q w hq hs
  cells := ho.cells

/-- A search finds what the register holds: the staged cells, then those below
    that are not hidden. -/
theorem holders (ho : o.Shows k h) (c : Address) (v : Value) :
    h.holders c v = o.holders c v ++ (k.holders c v).filter fun x => !o.hides ⟨c, x⟩ := by
  rw [Register.holders, ho.cells, List.filterMap_append]
  congr 1
  · rw [written, List.filterMap_filterMap, Overlay.holders_eq]
    congr 1
    funext e
    obtain ⟨p, w⟩ := e
    cases w <;> simp
  · rw [List.filterMap_filter, Register.holders, List.filter_filterMap]
    congr 1
    funext e
    obtain ⟨⟨c', x⟩, w⟩ := e
    by_cases hc : c' = c
    · subst hc
      cases hh : o.hides ⟨c', x⟩ <;> by_cases hw : w = v <;> simp [hh, hw, Option.filter]
    · simp [hc]

/-! ### Changing -/

theorem lookup_stage (w : Option Value) (hq : q ≠ p) :
    (o.stage p w).staged.lookup q = o.staged.lookup q := by
  have hq' : (q == p) = false := by simpa using hq
  have hl := lookup_filter o.staged (fun r => !decide (r = p)) q
  simp only [hq, decide_false, Bool.not_false, if_true] at hl
  rw [stage, List.lookup_cons, hq']
  simpa using hl

/-- A cell that is staged is hidden, in addition. -/
theorem hides_stage (p q : Place) (w : Option Value) :
    (o.stage p w).hides q = (o.hides q || q = p) := by
  by_cases hq : q = p
  · simp [hides, stage, hq]
  · rw [hides, lookup_stage w hq, decide_eq_false hq, Bool.or_false]
    rfl

theorem nodup_stage (ho : o.Shows k h) (p : Place) (w : Option Value) :
    ((o.stage p w).staged.map Prod.fst).Nodup := by
  rw [stage, List.map_cons, List.nodup_cons]
  refine ⟨fun hp => ?_, ho.nodup.sublist (List.filter_sublist.map _)⟩
  obtain ⟨e, he, rfl⟩ := List.mem_map.1 hp
  simpa using (List.mem_filter.1 he).2

/-- Staging keeps what was filled right. -/
theorem fills_stage (ho : o.Shows k h) {w : Option Value} {u : Option Value}
    (hq : (o.stage p w).fills[q]? = some u) (hs : (o.stage p w).staged.lookup q = none) :
    q.root ∉ (o.stage p w).wiped ∧ k.get? q = u := by
  by_cases he : q = p
  · simp [stage, he] at hs
  · rw [lookup_stage w he] at hs
    exact ho.fills q u hq hs

/-- Of what is below, a staged cell is no longer seen. -/
theorem below_stage (k : Register) (p : Place) (w : Option Value) :
    (k.cells.filter fun e => !(o.stage p w).hides e.1) =
      (k.cells.filter fun e => !o.hides e.1).filter fun e => e.1 ≠ p := by
  rw [List.filter_filter]
  congr 1
  funext e
  rw [hides_stage]
  by_cases he : e.1 = p <;> simp [he]

/-- A cell that is staged is put. -/
theorem stage_some (ho : o.Shows k h) (p : Place) (v : Value) :
    (o.stage p (some v)).Shows k (h.put p v) where
  nodup := ho.nodup_stage p _
  roots := ho.roots
  erased q hq hk := by
    rcases List.mem_cons.1 hq with he | hq
    · -- The cell that is staged now is present.
      cases he
    · exact ho.erased q (List.mem_filter.1 hq).1 hk
  fills _ _ hq hs := ho.fills_stage hq hs
  cells := by
    rw [below_stage, Register.cells_put, ho.cells, List.filter_append]
    exact congrArg (fun l => (p, v) :: (l ++ _)) (written_filter o.staged (· ≠ p)).symm

/-- An entry whose removal is staged is removed. -/
theorem stage_none (ho : o.Shows k h) (p : Place) (hp : p.cell.key ≠ none) :
    (o.stage p none).Shows k (h.remove p) where
  nodup := ho.nodup_stage p _
  roots := ho.roots
  erased q hq hk := by
    rcases List.mem_cons.1 hq with he | hq
    · -- The cell that is staged now is no root.
      cases he
      exact absurd hk hp
    · exact ho.erased q (List.mem_filter.1 hq).1 hk
  fills _ _ hq hs := ho.fills_stage hq hs
  cells := by
    rw [below_stage, Register.remove, Register.cells_filter, ho.cells, List.filter_append]
    exact congrArg (· ++ _) (written_filter o.staged (· ≠ p)).symm

theorem lookup_wipe (c : Address) (s : Slot) (q : Place) (hq : q.root ≠ ⟨c, .root s⟩) :
    (o.wipe c s).staged.lookup q = o.staged.lookup q := by
  have hne : q ≠ ⟨c, .root s⟩ := fun he => hq (by rw [he]; rfl)
  have hne' : (q == (⟨c, .root s⟩ : Place)) = false := by simpa using hne
  have hl := lookup_filter o.staged (fun r => !decide (r.root = ⟨c, .root s⟩)) q
  simp only [hq, decide_false, Bool.not_false, if_true] at hl
  rw [wipe_eq, List.lookup_cons, hne']
  simpa using hl

/-- A slot that is wiped is hidden, in addition. -/
theorem hides_wipe (c : Address) (s : Slot) (q : Place) :
    (o.wipe c s).hides q = (o.hides q || q.root = ⟨c, .root s⟩) := by
  have hw : q.root ∈ (o.wipe c s).wiped ↔ q.root = ⟨c, .root s⟩ ∨ q.root ∈ o.wiped := by
    rw [wipe_eq, Std.ExtTreeSet.mem_insert, Std.LawfulEqOrd.compare_eq_iff_eq, eq_comm]
  by_cases hq : q.root = ⟨c, .root s⟩
  · rw [hides, decide_eq_true (hw.2 (.inl hq)), decide_eq_true hq, Bool.true_or, Bool.or_true]
  · simp only [hides, hw, hq, false_or, decide_false, Bool.or_false, lookup_wipe c s q hq]

/-- A slot that is wiped is removed. -/
theorem wipe (ho : o.Shows k h) (c : Address) (s : Slot) :
    (o.wipe c s).Shows k (h.removeSlot ⟨c, .root s⟩) where
  nodup := by
    rw [Overlay.wipe_eq, List.map_cons, List.nodup_cons]
    refine ⟨fun hp => ?_, ho.nodup.sublist (List.filter_sublist.map _)⟩
    obtain ⟨e, he, hp⟩ := List.mem_map.1 hp
    have hr := (List.mem_filter.1 he).2
    rw [hp] at hr
    simp [Place.root, Cell.root] at hr
  roots q hq := by
    rw [Overlay.wipe_eq, Std.ExtTreeSet.mem_insert, Std.LawfulEqOrd.compare_eq_iff_eq] at hq
    rcases hq with rfl | hq
    · rfl
    · exact ho.roots q hq
  erased q hq hk := by
    rw [Overlay.wipe_eq, Std.ExtTreeSet.mem_insert, Std.LawfulEqOrd.compare_eq_iff_eq]
    rcases List.mem_cons.1 hq with he | hq
    · exact .inl (Prod.mk.inj he).1.symm
    · exact .inr (ho.erased q (List.mem_filter.1 hq).1 hk)
  fills q u hq hs := by
    rw [Overlay.wipe_eq, Std.ExtTreeMap.getElem?_filter', Option.filter_eq_some_iff] at hq
    -- A wipe drops what was filled in the slot.
    have hr : q.root ≠ ⟨c, .root s⟩ := by simpa using hq.2
    rw [lookup_wipe c s q hr] at hs
    obtain ⟨hw, hk⟩ := ho.fills q u hq.1 hs
    refine ⟨?_, hk⟩
    rw [Overlay.wipe_eq, Std.ExtTreeSet.mem_insert, Std.LawfulEqOrd.compare_eq_iff_eq]
    exact fun hn => hn.elim (fun he => hr he.symm) hw
  cells := by
    have hb : (k.cells.filter fun e => !(o.wipe c s).hides e.1) =
        (k.cells.filter fun e => !o.hides e.1).filter fun e => e.1.root ≠ ⟨c, .root s⟩ := by
      rw [List.filter_filter]
      congr 1
      funext e
      rw [hides_wipe]
      by_cases he : e.1.root = ⟨c, .root s⟩ <;> simp [he]
    rw [hb, Register.removeSlot, Register.cells_filter, ho.cells, List.filter_append, wipe_eq]
    exact congrArg (· ++ _) (written_filter o.staged (·.root ≠ ⟨c, .root s⟩)).symm

end Shows

/-! ### Requests -/

variable {σ : Type} {b : Backend σ} {R : σ → Register → Prop} {s : σ}

/-- An overlay over a backend that shows registers. -/
def ShowsOver (R : σ → Register → Prop) (x : Overlay × σ) (h : Register) : Prop :=
  ∃ k, R x.2 k ∧ x.1.Shows k h

/-- Reading a cell gives its value, and may fill it. -/
theorem fetch_shows (hb : b.Shows R) (hs : R s k) (ho : o.Shows k h) (p : Place) :
    (o.fetch b p s).1 = .ok (h.get? p) ∧ ShowsOver R (o.fetch b p s).2 h := by
  rw [fetch]
  split
  · next w hw => exact ⟨by rw [ho.known? hw], k, hs, ho⟩
  · next hw =>
    obtain ⟨hk, hp⟩ := ho.not_known? hw
    obtain ⟨_, t, he, rfl, ht⟩ := hb.reply (.read p.owner p.cell) hs
    rw [he]
    exact ⟨congrArg Except.ok hk.symm, k, ht, ho.fill hp⟩

/-- The staged cells, and those found below that are not hidden, are what may be
    answered to a search. -/
theorem Shows.answers_holders (ho : o.Shows k h) {c : Address} {l : List Cell}
    (hl : k.Answers (.holders c v) l) :
    h.Answers (.holders c v) (o.holders c v ++ l.filter fun x => !o.hides ⟨c, x⟩) := by
  obtain ⟨hd, hf⟩ := hl
  have hs : ∀ x ∈ o.holders c v, h.get? ⟨c, x⟩ = some v := by
    intro x hx
    rw [Overlay.holders_eq] at hx
    obtain ⟨⟨⟨c', y⟩, w⟩, he, hy⟩ := List.mem_filterMap.1 hx
    simp only [Option.ite_none_right_eq_some, Option.some.injEq] at hy
    obtain ⟨⟨rfl, rfl⟩, rfl⟩ := hy
    exact Register.get?_eq_some_iff.2 (ho.mem_cells.2 (.inl he))
  refine ⟨fun x hx => ?_, ?_⟩
  · rcases List.mem_append.1 hx with hx | hx
    · exact ⟨v, hs x hx, rfl⟩
    · obtain ⟨hx, hh⟩ := List.mem_filter.1 hx
      rw [ho.get?_of_not_hides (by simpa using hh)]
      exact hd x hx
  · rw [ho.holders, ← hf, List.filter_append,
      List.filter_eq_self.2 fun x hx => by simpa using hs x hx, List.filter_filter,
      List.filter_filter]
    congr 1
    apply List.filter_congr
    intro x _
    cases hh : o.hides ⟨c, x⟩
    · simp [ho.get?_of_not_hides hh]
    · simp

/-- An overlay over something that shows a register answers as a register does. -/
theorem backend_shows (hb : b.Shows R) : (backend b).Shows (ShowsOver R) where
  answer {x h} r hx := by
    obtain ⟨o, s⟩ := x
    obtain ⟨k, hs, ho⟩ := hx
    cases r with
    | read c x => exact ⟨_, (fetch_shows hb hs ho ⟨c, x⟩).1, rfl⟩
    | write | erase | eraseEntry => exact ⟨(), rfl, trivial⟩
    | allocate c t =>
      -- The root is fetched first, and a map is staged if it is absent.
      have ha := (fetch_shows hb hs ho ⟨c, .root t⟩).1
      rw [backend]
      generalize o.fetch b ⟨c, .root t⟩ s = y at ha ⊢
      obtain ⟨_, o', s'⟩ := y
      subst ha
      cases hx : h.get? ⟨c, .root t⟩ with
      | none => exact ⟨true, rfl, by simp [Register.Answers, Register.answer, hx]⟩
      | some v => exact ⟨false, rfl, by simp [Register.Answers, Register.answer, hx]⟩
    | holders c v =>
      obtain ⟨l, t, he, ha, _⟩ := hb.reply (.holders c v) hs
      refine ⟨o.holders c v ++ l.filter fun x => !o.hides ⟨c, x⟩, ?_, ho.answers_holders ha⟩
      rw [backend, he]
  after {x h} r hx := by
    obtain ⟨o, s⟩ := x
    obtain ⟨k, hs, ho⟩ := hx
    cases r with
    | read c x => exact (fetch_shows hb hs ho ⟨c, x⟩).2
    | write c x v => exact ⟨k, hs, ho.stage_some _ _⟩
    | erase c t => exact ⟨k, hs, ho.wipe c t⟩
    | eraseEntry c t j => exact ⟨k, hs, ho.stage_none _ (by simp [Cell.entry])⟩
    | allocate c t =>
      obtain ⟨ha, hn⟩ := fetch_shows hb hs ho ⟨c, .root t⟩
      rw [backend, Register.after]
      generalize o.fetch b ⟨c, .root t⟩ s = y at ha hn ⊢
      obtain ⟨_, o', s'⟩ := y
      obtain ⟨k', hs', ho'⟩ := hn
      subst ha
      cases hx : h.get? ⟨c, .root t⟩ with
      | none => exact ⟨k', hs', ho'.stage_some _ _⟩
      | some v => exact ⟨k', hs', ho'⟩
    | holders c v =>
      obtain ⟨l, t, he, _, ht⟩ := hb.reply (.holders c v) hs
      rw [backend, he]
      exact ⟨k, ht, ho⟩

end Overlay

end CreditMachine
