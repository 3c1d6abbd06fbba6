import CreditMachine.Storage.Overlay
import Mathlib.Data.List.Nodup
import Mathlib.Data.Set.Function

/-!
# Registers

A *register* is storage as its users see it: the cells that are present, with
their values, the one written last first. It has no layers and no index, and
answers every request (`Register.answer`).

A backend *shows* registers, one for each of its states (`Backend.Shows`), if it
goes from state to state as its registers do, never fails, and answers as they
do. Only a search may answer more than the register: it goes by digests, and may
find cells with other values of the same digest (`Register.Answers`). It does not
if there are none (`Register.Clear`), so in particular where no two different
values that are stored or probed have one digest (`Register.clear_of_injOn`).
-/

namespace CreditMachine

/-- The cells that are present, with their values, the one written last first. -/
@[ext]
structure Register where
  cells : List (Place × Value)
  nodup : (cells.map Prod.fst).Nodup

/-- In a list with each key once, the entry of a key is what is found under it. -/
theorem lookup_eq_some_iff_mem {α β : Type} [DecidableEq α] {l : List (α × β)}
    (h : (l.map Prod.fst).Nodup) {a : α} {b : β} : l.lookup a = some b ↔ (a, b) ∈ l := by
  induction l with
  | nil => simp
  | cons e l ih =>
    obtain ⟨k, w⟩ := e
    rw [List.map_cons, List.nodup_cons] at h
    rw [List.lookup_cons, List.mem_cons, Prod.mk.injEq]
    by_cases hk : a = k
    · subst hk
      have hl : (a, b) ∉ l := fun hm => h.1 (List.mem_map.2 ⟨(a, b), hm, rfl⟩)
      simp [hl, eq_comm]
    · have hk' : (a == k) = false := by simpa using hk
      simp [hk', hk, ih h.2]

theorem lookup_filter {α β : Type} [DecidableEq α] (l : List (α × β)) (f : α → Bool) (a : α) :
    (l.filter fun e => f e.1).lookup a = if f a then l.lookup a else none := by
  induction l with
  | nil => simp
  | cons e l ih =>
    obtain ⟨k, w⟩ := e
    by_cases hk : a = k
    · subst hk
      cases hf : f a <;> simp [hf, ih]
    · have hk' : (a == k) = false := by simpa using hk
      cases hf : f k <;> simp [hf, ih, List.lookup_cons, hk']

namespace Register

/-- No cell is present. -/
def empty : Register := ⟨[], List.nodup_nil⟩

variable (h : Register)

/-- The value of a cell. -/
def get? (p : Place) : Option Value := h.cells.lookup p

/-- The register with the cells that satisfy `f`. -/
def filter (f : Place → Bool) : Register where
  cells := h.cells.filter fun e => f e.1
  nodup := h.nodup.sublist (List.filter_sublist.map _)

/-- The cell `p` is absent. -/
def remove (p : Place) : Register := h.filter (· ≠ p)

/-- The cell `p` holds `v`, and was written last. -/
def put (p : Place) (v : Value) : Register where
  cells := (p, v) :: (h.remove p).cells
  nodup := by
    rw [List.map_cons, List.nodup_cons]
    refine ⟨fun hp => ?_, (h.remove p).nodup⟩
    obtain ⟨e, he, rfl⟩ := List.mem_map.1 hp
    simpa using (List.mem_filter.1 he).2

/-- All cells of the slot with the root `p` are absent. -/
def removeSlot (p : Place) : Register := h.filter (·.root ≠ p)

/-- The cells of the contract `c` that hold `v`, the one written last first. -/
def holders (c : Address) (v : Value) : List Cell :=
  h.cells.filterMap fun e => if e.1.owner = c ∧ e.2 = v then some e.1.cell else none

/-- The answer to a request. -/
def answer : (r : Request) → r.Answer
  | .read c x => h.get? ⟨c, x⟩
  | .write .. | .erase .. | .eraseEntry .. => ()
  | .allocate c s => (h.get? ⟨c, .root s⟩).isNone
  | .holders c v => h.holders c v

/-- The register after a request. -/
def after : Request → Register
  | .read .. | .holders .. => h
  | .write c x v => h.put ⟨c, x⟩ v
  | .erase c s => h.removeSlot ⟨c, .root s⟩
  | .eraseEntry c s k => h.remove ⟨c, .entry s k⟩
  | .allocate c s => if (h.get? ⟨c, .root s⟩).isSome then h else h.put ⟨c, .root s⟩ (.map 0)

/-! ### Cells -/

variable {h} {p q : Place} {v w : Value}

theorem get?_eq_some_iff : h.get? p = some v ↔ (p, v) ∈ h.cells :=
  lookup_eq_some_iff_mem h.nodup

theorem cells_filter (f : Place → Bool) : (h.filter f).cells = h.cells.filter fun e => f e.1 := rfl

theorem cells_put (p : Place) (v : Value) :
    (h.put p v).cells = (p, v) :: h.cells.filter fun e => e.1 ≠ p := rfl

theorem mem_filter {f : Place → Bool} {e : Place × Value} :
    e ∈ (h.filter f).cells ↔ e ∈ h.cells ∧ f e.1 :=
  List.mem_filter

theorem mem_put {e : Place × Value} :
    e ∈ (h.put p v).cells ↔ e = (p, v) ∨ e ∈ h.cells ∧ e.1 ≠ p := by
  rw [put, List.mem_cons, remove, mem_filter]
  simp

theorem get?_filter (f : Place → Bool) :
    (h.filter f).get? q = if f q then h.get? q else none :=
  lookup_filter h.cells f q

@[simp] theorem get?_remove : (h.remove p).get? q = if q = p then none else h.get? q := by
  rw [remove, get?_filter]
  by_cases hq : q = p <;> simp [hq]

@[simp] theorem get?_removeSlot :
    (h.removeSlot p).get? q = if q.root = p then none else h.get? q := by
  rw [removeSlot, get?_filter]
  by_cases hq : q.root = p <;> simp [hq]

@[simp] theorem get?_put : (h.put p v).get? q = if q = p then some v else h.get? q := by
  have hr : (h.put p v).get? q = if q = p then some v else (h.remove p).get? q := by
    rw [get?, put, List.lookup_cons]
    by_cases hq : q = p
    · simp [hq]
    · have hq' : (q == p) = false := by simpa using hq
      rw [hq', if_neg hq]
      rfl
  rw [hr]
  by_cases hq : q = p <;> simp [hq]

/-- A filter that all present cells satisfy changes nothing. -/
theorem filter_eq_self {f : Place → Bool} (hf : ∀ e ∈ h.cells, f e.1) : h.filter f = h :=
  Register.ext (List.filter_eq_self.2 hf)

/-- To remove an absent cell changes nothing. -/
theorem remove_of_get?_eq_none (hp : h.get? p = none) : h.remove p = h := by
  apply filter_eq_self
  intro e he
  have hne : e.1 ≠ p := by
    rintro rfl
    rw [get?_eq_some_iff.2 he] at hp
    cases hp
  simpa using hne

end Register

/-! ### What is stored and probed -/

/-- What was asked of storage, with the answer. -/
inductive Exchange
  | request (r : Request) (a : Except StorageError r.Answer)
  | lookup (c : Address) (v : Value) (a : Except StorageError (Option Cell))

/-- The values that were stored or probed. -/
def Exchange.values : Exchange → List Value
  | .request (.write _ _ v) _ => [v]
  | .request (.holders _ v) _ => [v]
  | .request (.allocate ..) (.ok true) => [.map 0]
  | .request .. => []
  | .lookup _ v _ => [v]

/-- The values that some exchanges stored or probed. -/
def valuesOf (l : List Exchange) : Set Value := {v | v ∈ l.flatMap Exchange.values}

theorem valuesOf_cons_subset {e : Exchange} {l : List Exchange} {V : Set Value} :
    valuesOf (e :: l) ⊆ V ↔ (∀ v ∈ e.values, v ∈ V) ∧ valuesOf l ⊆ V := by
  simp only [valuesOf, List.flatMap_cons, List.mem_append, Set.subset_def, Set.mem_ofPred_eq]
  exact ⟨fun h => ⟨fun v hv => h v (.inl hv), fun v hv => h v (.inr hv)⟩,
    fun h v hv => hv.elim (h.1 v) (h.2 v)⟩

theorem valuesOf_append (l k : List Exchange) : valuesOf (l ++ k) = valuesOf l ∪ valuesOf k := by
  ext v
  simp [valuesOf]

namespace Register

variable (h : Register)

/-- The values that are present. -/
def values : Set Value := {v | ∃ p, (p, v) ∈ h.cells}

/-- What may be answered to a request. A search may find too much, but only
    cells whose values have the digest of the one that is searched. -/
def Answers : (r : Request) → r.Answer → Prop
  | .holders c v, l =>
    (∀ x ∈ l, ∃ w, h.get? ⟨c, x⟩ = some w ∧ w.digest = v.digest) ∧
      l.filter (fun x => h.get? ⟨c, x⟩ = some v) = h.holders c v
  | .read c x, a => a = h.answer (.read c x)
  | .allocate c s, a => a = h.answer (.allocate c s)
  | .write .., _ | .erase .., _ | .eraseEntry .., _ => True

/-- If the request searches a value, no other value that is present has its
    digest. -/
def Clear : Request → Prop
  | .holders _ v => ∀ w ∈ h.values, w.digest = v.digest → w = v
  | _ => True

variable {h} {V : Set Value} {r : Request} {a : r.Answer}

/-- There is one answer only, where digests tell values apart. -/
theorem Answers.eq_answer (ha : h.Answers r a) (hr : h.Clear r) : a = h.answer r := by
  cases r with
  | read | allocate => exact ha
  | write | erase | eraseEntry => rfl
  | holders c v =>
    obtain ⟨hd, hl⟩ := ha
    rw [List.filter_eq_self.2] at hl
    · exact hl
    · intro x hx
      obtain ⟨w, hw, hwd⟩ := hd x hx
      simpa [hr w ⟨_, get?_eq_some_iff.1 hw⟩ hwd] using hw

theorem values_filter_subset (f : Place → Bool) : (h.filter f).values ⊆ h.values :=
  fun _ ⟨p, hp⟩ => ⟨p, (mem_filter.1 hp).1⟩

theorem values_put_subset (p : Place) (v : Value) : (h.put p v).values ⊆ insert v h.values := by
  rintro w ⟨q, hq⟩
  rcases mem_put.1 hq with he | ⟨hq, _⟩
  · exact .inl (congrArg Prod.snd he)
  · exact .inr ⟨q, hq⟩

/-- A request brings no values but those that it stores. -/
theorem values_after_subset (ha : h.Answers r a) (hh : h.values ⊆ V)
    (hr : ∀ v ∈ (Exchange.request r (.ok a)).values, v ∈ V) : (h.after r).values ⊆ V := by
  cases r with
  | read | holders => exact hh
  | write c x v =>
    exact (values_put_subset _ _).trans (Set.insert_subset (hr v (by simp [Exchange.values])) hh)
  | erase | eraseEntry => exact (values_filter_subset _).trans hh
  | allocate c s =>
    rw [after]
    split
    · exact hh
    · next hs =>
      -- The map that is put where the root is absent is mentioned by the answer.
      have hn : a = true := by
        rw [show a = h.answer (.allocate c s) from ha]
        simpa [answer] using hs
      have hm : Value.map 0 ∈ V := hr _ (by rw [hn]; simp [Exchange.values])
      exact (values_put_subset _ _).trans (Set.insert_subset hm hh)

/-- A request is clear where no two different values have one digest. -/
theorem clear_of_injOn (hV : V.InjOn Value.digest) (hh : h.values ⊆ V)
    (hr : ∀ v ∈ (Exchange.request r (.ok a)).values, v ∈ V) : h.Clear r := by
  cases r with
  | holders c v => exact fun w hw hd => hV (hh hw) (hr v (by simp [Exchange.values])) hd
  | _ => trivial

end Register

/-! ### Backends that show registers -/

/-- The backend `b` never fails, goes from state to state as registers do that are
    related to its states, and answers as they may. -/
structure Backend.Shows {σ : Type} (b : Backend σ) (R : σ → Register → Prop) : Prop where
  answer : ∀ {s h} (r : Request), R s h → ∃ a, (b r s).1 = .ok a ∧ h.Answers r a
  after : ∀ {s h} (r : Request), R s h → R (b r s).2 (h.after r)

namespace Backend.Shows

variable {σ : Type} {b : Backend σ} {R : σ → Register → Prop}

/-- What a request comes to. -/
theorem reply (hb : b.Shows R) (r : Request) {s : σ} {h : Register} (hs : R s h) :
    ∃ a t, b r s = (.ok a, t) ∧ h.Answers r a ∧ R t (h.after r) := by
  obtain ⟨a, ha, hr⟩ := hb.answer r hs
  exact ⟨a, (b r s).2, Prod.ext ha rfl, hr, hb.after r hs⟩

/-- Requests that are made in turn are all answered. -/
theorem replay (hb : b.Shows R) (l : List Request) {s : σ} {h : Register} (hs : R s h) :
    (b.replay l s).1 = .ok () ∧ R (b.replay l s).2 (l.foldl Register.after h) := by
  induction l generalizing s h with
  | nil => exact ⟨rfl, hs⟩
  | cons r l ih =>
    obtain ⟨a, t, he, _, ht⟩ := hb.reply r hs
    rw [Backend.replay, he]
    exact ih ht

end Backend.Shows

end CreditMachine
