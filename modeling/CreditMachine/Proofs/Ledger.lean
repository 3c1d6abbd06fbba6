import CreditMachine.Proofs.Ranges
import CreditMachine.Proofs.Register

/-!
# The ledger shows a register

A ledger that is reached by requests holds, for each contract, the cells of a
register (`Ledger.Shows`): their values, and for each digest the cells whose
value has it, in the order of the register and without empty lists. The index is
kept by three updates, one for a write and two for removals, and each does to
the cells of a digest what the request does to the register.

* `Ledger.backend_shows`: a ledger answers as its register;
* `Ledger.Reachable.shows`: every ledger reached by requests has a register.
-/

namespace CreditMachine

namespace Register

variable (h : Register)

/-- The cells of the contract `c` whose values have the digest `d`, the one
    written last first. -/
def byDigest (c : Address) (d : Word) : List Cell :=
  h.cells.filterMap fun e => if e.1.owner = c ∧ e.2.digest = d then some e.1.cell else none

variable {h} {c : Address} {d : Word} {x : Cell} {v : Value}

/-- A cell is listed under the digest of its value. -/
theorem mem_byDigest : x ∈ h.byDigest c d ↔ ∃ v, h.get? ⟨c, x⟩ = some v ∧ v.digest = d := by
  simp only [byDigest, List.mem_filterMap, get?_eq_some_iff]
  constructor
  · rintro ⟨⟨⟨o, y⟩, v⟩, he, hx⟩
    simp only [Option.ite_none_right_eq_some, Option.some.injEq] at hx
    obtain ⟨⟨rfl, hd⟩, rfl⟩ := hx
    exact ⟨v, he, hd⟩
  · rintro ⟨v, he, hd⟩
    exact ⟨(⟨c, x⟩, v), he, by simp [hd]⟩

/-- What a register loses its lists lose. -/
theorem byDigest_filter (f : Place → Bool) :
    (h.filter f).byDigest c d = (h.byDigest c d).filter fun x => f ⟨c, x⟩ := by
  rw [byDigest, filter, List.filterMap_filter, byDigest, List.filter_filterMap]
  congr 1
  funext e
  obtain ⟨⟨o, y⟩, v⟩ := e
  by_cases ho : o = c
  · subst ho
    cases hf : f ⟨o, y⟩ <;> by_cases hd : v.digest = d <;> simp [hf, hd, Option.filter]
  · simp [ho]

/-- A cell that is put is the first in the list of its digest, and is in no other. -/
theorem byDigest_put {p : Place} : (h.put p v).byDigest c d =
    if p.owner = c ∧ v.digest = d then p.cell :: (h.remove p).byDigest c d
    else (h.remove p).byDigest c d := by
  rw [byDigest, put, List.filterMap_cons]
  split
  · next hn =>
    have hn' : ¬(p.owner = c ∧ v.digest = d) := by simpa using hn
    rw [if_neg hn']
    rfl
  · next b hb =>
    simp only [Option.ite_none_right_eq_some, Option.some.injEq] at hb
    rw [if_pos hb.1, ← hb.2]
    rfl

/-- Removing a cell that is absent keeps the cells of a digest. -/
theorem put_remove (p : Place) (v : Value) : (h.remove p).put p v = h.put p v := by
  apply Register.ext
  have hr : (h.remove p).remove p = h.remove p := remove_of_get?_eq_none (by simp)
  exact congrArg (fun k : Register => (p, v) :: k.cells) hr

/-- The cells of a digest are what may be answered to a search for a value. -/
theorem answers_byDigest (c : Address) (v : Value) :
    h.Answers (.holders c v) (h.byDigest c v.digest) := by
  refine ⟨fun x hx => mem_byDigest.1 hx, ?_⟩
  rw [byDigest, List.filter_filterMap]
  apply List.filterMap_congr
  rintro ⟨⟨o, y⟩, w⟩ he
  -- Among the cells of the digest, those with the value are the holders.
  by_cases ho : o = c
  · subst ho
    by_cases hw : w = v <;> by_cases hd : w.digest = v.digest <;>
      simp_all [Option.filter, get?_eq_some_iff.2 he]
  · simp [ho]

end Register

/-! ### The index -/

/-- A list that is kept only if it is not empty. -/
def listed : List Cell → Option (List Cell)
  | [] => none
  | l => some l

theorem getD_listed (l : List Cell) : (listed l).getD [] = l := by
  cases l <;> rfl

namespace Recency

variable {i : Recency} {h : Register} {c : Address} {x : Cell} {v w : Value}

/-- The index has the cells of the contract `c` in the register `h`. -/
def Shows (i : Recency) (h : Register) (c : Address) : Prop :=
  ∀ d, i.list? d = listed (h.byDigest c d)

/-- A cell that is erased is taken from the list of its digest. -/
theorem list?_erase (d : Word) : (i.erase x v).list? d =
    if v.digest = d then listed (((i.list? d).getD []).filter (· ≠ x)) else i.list? d := by
  rw [list?, erase, Std.ExtTreeMap.getElem?_alter, list?]
  by_cases hd : v.digest = d
  · subst hd
    rw [if_pos Std.ReflOrd.compare_self, if_pos rfl]
    cases i.lists[v.digest]? with
    | none => rfl
    | some l =>
      simp only [Option.getD_some]
      cases l.filter (· ≠ x) <;> rfl
  · rw [if_neg (by rwa [Std.LawfulEqOrd.compare_eq_iff_eq]), if_neg hd]

/-- A cell that is written comes first in the list of its digest. -/
theorem list?_write (d : Word) : (i.write x none v).list? d =
    if v.digest = d then some (x :: (i.list? d).getD []) else i.list? d := by
  rw [list?, write, Std.ExtTreeMap.getElem?_alter, list?]
  by_cases hd : v.digest = d
  · subst hd
    rw [if_pos Std.ReflOrd.compare_self, if_pos rfl]
  · rw [if_neg (by rwa [Std.LawfulEqOrd.compare_eq_iff_eq]), if_neg hd]

/-- The index follows a cell that is removed. -/
theorem Shows.erase (hi : i.Shows h c) (hx : h.get? ⟨c, x⟩ = some v) :
    (i.erase x v).Shows (h.remove ⟨c, x⟩) c := by
  intro d
  rw [list?_erase, hi d, getD_listed, Register.remove, Register.byDigest_filter]
  have hf : (h.byDigest c d).filter (fun y => (⟨c, y⟩ : Place) ≠ ⟨c, x⟩) =
      (h.byDigest c d).filter (· ≠ x) := by
    congr 1
    funext y
    simp
  rw [hf]
  split
  · rfl
  · -- The cell `x` is not among those of another digest.
    next hd =>
    rw [List.filter_eq_self.2]
    intro y hy
    obtain ⟨w, hw, hwd⟩ := Register.mem_byDigest.1 hy
    have hne : y ≠ x := by
      rintro rfl
      rw [hx] at hw
      exact hd (Option.some.inj hw ▸ hwd)
    simpa using hne

/-- The index follows a cell that is new. -/
theorem Shows.write_absent (hi : i.Shows h c) (hx : h.get? ⟨c, x⟩ = none) :
    (i.write x none v).Shows (h.put ⟨c, x⟩ v) c := by
  intro d
  rw [list?_write, hi d, getD_listed, Register.byDigest_put, Register.remove_of_get?_eq_none hx]
  by_cases hd : v.digest = d <;> simp [hd, listed]

/-- The index follows a cell that is written, be it new or not. -/
theorem Shows.write (hi : i.Shows h c) :
    (i.write x (h.get? ⟨c, x⟩) v).Shows (h.put ⟨c, x⟩ v) c := by
  cases hx : h.get? ⟨c, x⟩ with
  | none => exact hi.write_absent hx
  | some w =>
    rw [← Register.put_remove]
    exact (hi.erase hx).write_absent (by simp)

end Recency

/-! ### Contracts -/

namespace Account

variable {a : Account} {h : Register} {c : Address} {x : Cell} {v : Value}

/-- The contract holds the cells of the contract `c` in the register `h`. -/
structure Shows (a : Account) (h : Register) (c : Address) : Prop where
  cells : ∀ x, a.cells[x]? = h.get? ⟨c, x⟩
  recency : a.recency.Shows h c

theorem shows_empty : empty.Shows .empty c :=
  ⟨fun _ => Std.ExtTreeMap.getElem?_empty, fun _ => Std.ExtTreeMap.getElem?_empty⟩

theorem Shows.put (ha : a.Shows h c) : (a.put x v).Shows (h.put ⟨c, x⟩ v) c where
  cells y := by
    simp only [Account.put, Std.ExtTreeMap.getElem?_insert, Std.LawfulEqOrd.compare_eq_iff_eq,
      ha.cells, Register.get?_put, Place.mk.injEq, true_and, @eq_comm _ y x]
  recency := by
    simp only [Account.put, ha.cells]
    exact ha.recency.write

theorem Shows.remove (ha : a.Shows h c) : (a.remove x).Shows (h.remove ⟨c, x⟩) c := by
  rw [Account.remove]
  split
  · next hx =>
    rw [Register.remove_of_get?_eq_none (ha.cells x ▸ hx)]
    exact ha
  · next v hx =>
    refine ⟨fun y => ?_, ha.recency.erase (ha.cells x ▸ hx)⟩
    simp only [Std.ExtTreeMap.getElem?_erase, Std.LawfulEqOrd.compare_eq_iff_eq, ha.cells,
      Register.get?_remove, Place.mk.injEq, true_and, @eq_comm _ y x]

/-- A filter that spares the contract `c` changes nothing in it. -/
theorem Shows.filter (ha : a.Shows h c) {f : Place → Bool} (hf : ∀ x, f ⟨c, x⟩) :
    a.Shows (h.filter f) c where
  cells y := by rw [Register.get?_filter, if_pos (hf y), ha.cells]
  recency d := by
    rw [Register.byDigest_filter, List.filter_eq_self.2 fun y _ => hf y]
    exact ha.recency d

/-- A write to another contract changes nothing. -/
theorem Shows.put_other (ha : a.Shows h c) {p : Place} (hp : p.owner ≠ c) :
    a.Shows (h.put p v) c := by
  have hr : a.Shows (h.remove p) c := ha.filter fun x => by
    have hne : (⟨c, x⟩ : Place) ≠ p := fun he => hp (he ▸ rfl)
    simpa using hne
  refine ⟨fun y => ?_, fun d => ?_⟩
  · have hne : (⟨c, y⟩ : Place) ≠ p := fun he => hp (he ▸ rfl)
    rw [Register.get?_put, if_neg hne, ha.cells]
  · rw [Register.byDigest_put, if_neg fun he => hp he.1]
    exact hr.recency d

/-- By induction on the cells that are removed from an account one by one. -/
theorem Shows.foldl_remove (ha : a.Shows h c) (l : List Cell) :
    (l.foldl Account.remove a).Shows (h.filter fun p => !(p.owner = c ∧ p.cell ∈ l)) c := by
  induction l generalizing a h with
  | nil =>
    rw [Register.filter_eq_self (by simp)]
    exact ha
  | cons y l ih =>
    have hl := ih (ha.remove (x := y))
    have he : (h.remove ⟨c, y⟩).filter (fun p => !(p.owner = c ∧ p.cell ∈ l)) =
        h.filter fun p => !(p.owner = c ∧ p.cell ∈ y :: l) := by
      apply Register.ext
      simp only [Register.remove, Register.filter, List.filter_filter]
      congr 1
      funext e
      obtain ⟨⟨o, z⟩, w⟩ := e
      by_cases ho : o = c <;> by_cases hz : z = y <;> simp [ho, hz]
    rw [← he]
    exact hl

theorem Shows.removeSlot (ha : a.Shows h c) (s : Slot) :
    (a.removeSlot s).Shows (h.removeSlot ⟨c, .root s⟩) c := by
  have he : h.removeSlot ⟨c, .root s⟩ = h.filter fun p => !(p.owner = c ∧ p.cell ∈ a.slot s) := by
    apply Register.ext
    apply List.filter_congr
    rintro ⟨⟨o, y⟩, v⟩ hy
    by_cases ho : o = c
    · subst ho
      -- A cell that is present is in the slot if it is among the cells of the slot.
      have hm : y ∈ a.cells := by
        rw [Std.ExtTreeMap.mem_iff_isSome_getElem?, ha.cells, Register.get?_eq_some_iff.2 hy]
        rfl
      simp [Place.root_eq_iff, Account.slot_eq, hm]
    · simp [Place.root_eq_iff, ho]
  rw [he]
  exact ha.foldl_remove _

end Account

/-! ### Ledgers -/

namespace Ledger

variable {l : Ledger} {h : Register}

/-- The ledger holds the cells of the register `h`. -/
def Shows (l : Ledger) (h : Register) : Prop := ∀ c, (l.account c).Shows h c

/-- The values of all cells. -/
def values (l : Ledger) : Set Value := {v | ∃ c x, l.get? c x = some v}

theorem shows_empty : empty.Shows .empty := fun c => by
  rw [account, empty, Std.ExtTreeMap.getElem?_empty]
  exact Account.shows_empty

/-- A ledger holds what its register shows. -/
theorem Shows.get? (hl : l.Shows h) (c : Address) (x : Cell) : l.get? c x = h.get? ⟨c, x⟩ :=
  (hl c).cells x

/-- A ledger finds the cells of a value by the digest, newest first. -/
theorem Shows.holders (hl : l.Shows h) (c : Address) (v : Value) :
    l.holders c v = h.byDigest c v.digest := by
  rw [Ledger.holders, Recency.holders, (hl c).recency, getD_listed]

/-- The values in a ledger are those of its register. -/
theorem Shows.values (hl : l.Shows h) : l.values = h.values := by
  ext v
  simp only [Ledger.values, Register.values, Set.mem_ofPred_eq, hl.get?, Register.get?_eq_some_iff]
  exact ⟨fun ⟨c, x, hx⟩ => ⟨_, hx⟩, fun ⟨p, hp⟩ => ⟨p.owner, p.cell, hp⟩⟩

theorem account_modify (c c' : Address) (f : Account → Account) :
    (l.modify c f).account c' = if c = c' then f (l.account c') else l.account c' := by
  rw [account, modify, Std.ExtTreeMap.getElem?_insert]
  by_cases hc : c = c'
  · subst hc
    simp
  · simp [hc, account]

/-- A change of one contract shows a register if it does so for this contract,
    and nothing changes in the others. -/
theorem Shows.modify (hl : l.Shows h) {c : Address} {f : Account → Account} {h' : Register}
    (hc : (f (l.account c)).Shows h' c)
    (ho : ∀ (a : Account) c', c ≠ c' → a.Shows h c' → a.Shows h' c') :
    (l.modify c f).Shows h' := by
  intro c'
  rw [account_modify]
  split
  · next he => exact he ▸ hc
  · next he => exact ho _ c' he (hl c')

theorem Shows.put (hl : l.Shows h) (c : Address) (x : Cell) (v : Value) :
    (l.modify c (·.put x v)).Shows (h.put ⟨c, x⟩ v) :=
  hl.modify (hl c).put fun _ _ he ha => ha.put_other he

theorem Shows.remove (hl : l.Shows h) (c : Address) (x : Cell) :
    (l.modify c (·.remove x)).Shows (h.remove ⟨c, x⟩) :=
  hl.modify (hl c).remove fun _ _ he ha => ha.filter fun y => by simp [Ne.symm he]

theorem Shows.removeSlot (hl : l.Shows h) (c : Address) (s : Slot) :
    (l.modify c (·.removeSlot s)).Shows (h.removeSlot ⟨c, .root s⟩) :=
  hl.modify ((hl c).removeSlot s) fun _ _ he ha => ha.filter fun y => by
    simp [Place.root_eq_iff, Ne.symm he]

/-- The ledger answers as its register. -/
theorem backend_shows : Backend.Shows backend Shows where
  answer {l h} r hl := by
    cases r with
    | read c x => exact ⟨_, rfl, hl.get? c x⟩
    | write | erase | eraseEntry => exact ⟨(), rfl, trivial⟩
    | allocate c s =>
      rw [backend, hl.get?]
      cases hx : h.get? ⟨c, .root s⟩ with
      | none => exact ⟨true, rfl, by simp [Register.Answers, Register.answer, hx]⟩
      | some v => exact ⟨false, rfl, by simp [Register.Answers, Register.answer, hx]⟩
    | holders c v =>
      refine ⟨_, rfl, ?_⟩
      rw [hl.holders]
      exact Register.answers_byDigest c v
  after {l h} r hl := by
    cases r with
    | read | holders => exact hl
    | write c x v => exact hl.put c x v
    | erase c s => exact hl.removeSlot c s
    | eraseEntry c s k => exact hl.remove c _
    | allocate c s =>
      simp only [backend, Register.after, hl.get?]
      cases h.get? ⟨c, .root s⟩ with
      | none => exact hl.put c _ _
      | some v => exact hl

/-- The ledgers that are reached by requests. -/
inductive Reachable : Ledger → Prop
  | empty : Reachable empty
  | request {l : Ledger} (r : Request) : Reachable l → Reachable (backend r l).2

/-- By induction on the requests: a ledger that has come from the empty one has a register. -/
theorem Reachable.shows (hl : l.Reachable) : ∃ h, l.Shows h := by
  induction hl with
  | empty => exact ⟨_, shows_empty⟩
  | request r _ ih =>
    obtain ⟨h, hl⟩ := ih
    exact ⟨_, backend_shows.after r hl⟩

/-! ### A sample -/

/-- A ledger with one cell. -/
def sample : Ledger := (backend (.write ⟨7⟩ (.root 1) (.ofWord64 5)) empty).2

theorem reachable_sample : sample.Reachable := .request _ .empty

theorem values_sample {v : Value} (hv : v ∈ sample.values) : v = .ofWord64 5 := by
  have hl : sample.Shows (Register.empty.put ⟨⟨7⟩, .root 1⟩ (.ofWord64 5)) :=
    backend_shows.after (.write ⟨7⟩ (.root 1) (.ofWord64 5)) shows_empty
  rw [hl.values] at hv
  rcases Register.values_put_subset _ _ hv with hv | ⟨p, hp⟩
  · exact hv
  · cases hp

/-- The digests of the sample and of some more values differ. -/
theorem injOn_digest_sample {es : List Exchange}
    (he : ∀ v ∈ es.flatMap Exchange.values, v ∈ [Value.ofWord64 5, .map 0, .map 1]) :
    (sample.values ∪ valuesOf es).InjOn Value.digest := by
  have hd : ∀ v ∈ [Value.ofWord64 5, .map 0, .map 1], ∀ w ∈ [Value.ofWord64 5, .map 0, .map 1],
      v.digest = w.digest → v = w := by decide +kernel
  have hm : ∀ v ∈ sample.values ∪ valuesOf es, v ∈ [Value.ofWord64 5, .map 0, .map 1] := by
    rintro v (hv | hv)
    · rw [values_sample hv]
      exact List.mem_cons_self
    · exact he v hv
  exact fun v hv w hw => hd v (hm v hv) w (hm w hw)

end Ledger

end CreditMachine
