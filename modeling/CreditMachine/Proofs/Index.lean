import CreditMachine.Proofs.Ledger
import Mathlib.Data.List.Induction

/-!
# The index of a ledger

A ledger finds the cells that hold a value by an index that it keeps beside the cells. What the
index should say is a matter of the history of the ledger: which cells hold the value now, and
which request wrote each of them last (`Ledger.LastWrite`).

The register that a ledger shows has its cells in this order (`Register.Ordered`), and the index
has the order from the register. Hence a search lists the cells that hold a value, each once, the
one written last first, and the index has nothing else (`Ledger.holders_spec`).
-/

namespace CreditMachine

/-- The cell that a request writes, if it writes one. An allocation does only where the root is
    absent. -/
def Request.written? (get? : Place → Option Value) : Request → Option Place
  | .write c x _ => some ⟨c, x⟩
  | .allocate c s => if (get? ⟨c, .root s⟩).isNone then some ⟨c, .root s⟩ else none
  | .read .. | .erase .. | .eraseEntry .. | .holders .. => none

/-- A request that writes a cell puts it first; the others keep the order. -/
theorem Register.after_cases (h : Register) (r : Request) :
    (r.written? h.get? = none ∧ (h.after r).cells.Sublist h.cells) ∨
      ∃ p v, r.written? h.get? = some p ∧ h.after r = h.put p v := by
  cases r with
  | read | holders => exact .inl ⟨rfl, .refl _⟩
  | erase | eraseEntry => exact .inl ⟨rfl, List.filter_sublist⟩
  | write c x v => exact .inr ⟨_, v, rfl, rfl⟩
  | allocate c s =>
    rw [Request.written?, after]
    cases h.get? ⟨c, .root s⟩ with
    | none => exact .inr ⟨_, .map 0, rfl, rfl⟩
    | some v => exact .inl ⟨rfl, .refl _⟩

namespace Ledger

/-- The ledger after some requests. -/
def history (rs : List Request) : Ledger :=
  rs.foldl (fun l r => (backend r l).2) empty

theorem history_concat (rs : List Request) (r : Request) :
    history (rs ++ [r]) = (backend r (history rs)).2 :=
  List.foldl_concat ..

/-- The cell that a request writes next, if it writes one. -/
def writtenNext? (rs : List Request) (r : Request) : Option Place :=
  r.written? fun p => (history rs).get? p.owner p.cell

variable {rs : List Request} {p q : Place} {i : Nat}

/-- The request `i` writes the cell `p`. -/
def Writes (rs : List Request) (p : Place) (i : Nat) : Prop :=
  ∃ r, rs[i]? = some r ∧ writtenNext? (rs.take i) r = some p

/-- The request `i` is the last one that writes the cell `p`. -/
def LastWrite (rs : List Request) (p : Place) (i : Nat) : Prop :=
  Writes rs p i ∧ ∀ j, Writes rs p j → j ≤ i

/-- The cell `p` was written after `q`. -/
def Later (rs : List Request) (p q : Place) : Prop :=
  ∃ i j, LastWrite rs p i ∧ LastWrite rs q j ∧ j < i

theorem Writes.lt (h : Writes rs p i) : i < rs.length := by
  obtain ⟨r, hr, _⟩ := h
  exact (List.getElem?_eq_some_iff.1 hr).1

/-- One more request adds at most one write, as the last. -/
theorem writes_concat {r : Request} : Writes (rs ++ [r]) p i ↔
    Writes rs p i ∨ i = rs.length ∧ writtenNext? rs r = some p := by
  rcases Nat.lt_trichotomy i rs.length with hi | rfl | hi
  · have ht : (rs ++ [r]).take i = rs.take i := List.take_append_of_le_length (Nat.le_of_lt hi)
    rw [Writes, List.getElem?_append_left hi, ht]
    simp [Writes, Nat.ne_of_lt hi]
  · simp [Writes]
  · have hn : ¬Writes rs p i := fun h => Nat.lt_asymm hi h.lt
    have hn' : ¬Writes (rs ++ [r]) p i := fun h => by
      have := h.lt
      rw [List.length_append, List.length_singleton] at this
      omega
    simp [hn, hn', Nat.ne_of_gt hi]

/-- No cell was written later than itself. -/
theorem Later.ne (h : Later rs p q) : p ≠ q := by
  rintro rfl
  obtain ⟨i, j, hi, hj, hl⟩ := h
  exact Nat.not_lt.2 (hj.2 i hi.1) hl

/-- A cell that a request does not write has been written last before. -/
theorem LastWrite.concat (h : LastWrite rs p i) {r : Request}
    (hr : writtenNext? rs r ≠ some p) : LastWrite (rs ++ [r]) p i := by
  refine ⟨writes_concat.2 (.inl h.1), fun j hj => ?_⟩
  rcases writes_concat.1 hj with hj | ⟨_, hj⟩
  · exact h.2 j hj
  · exact absurd hj hr

/-- A cell that a request writes is the one written last. -/
theorem lastWrite_concat {r : Request} (hr : writtenNext? rs r = some p) :
    LastWrite (rs ++ [r]) p rs.length := by
  refine ⟨writes_concat.2 (.inr ⟨rfl, hr⟩), fun j hj => ?_⟩
  have := hj.lt
  rw [List.length_append, List.length_singleton] at this
  omega

end Ledger

/-- The cells are in the order in which they were written, the one written last first. -/
structure Register.Ordered (h : Register) (rs : List Request) : Prop where
  written : ∀ e ∈ h.cells, ∃ i, Ledger.LastWrite rs e.1 i
  later : h.cells.Pairwise fun e f => Ledger.Later rs e.1 f.1

namespace Ledger

variable {h : Register} {rs : List Request}

/-- A request keeps the cells in order. -/
theorem Shows.ordered_after (hl : (history rs).Shows h) (ho : h.Ordered rs) (r : Request) :
    (h.after r).Ordered (rs ++ [r]) := by
  have hw : writtenNext? rs r = r.written? h.get? :=
    congrArg (r.written? ·) (funext fun p => hl.get? p.owner p.cell)
  rcases h.after_cases r with ⟨hn, hs⟩ | ⟨p, v, hp, ha⟩
  · -- No cell is written, and those that are left stay in order.
    rw [← hw] at hn
    have hk {p : Place} {i : Nat} (h : LastWrite rs p i) : LastWrite (rs ++ [r]) p i :=
      h.concat (by rw [hn]; nofun)
    refine ⟨fun e he => ?_, (ho.later.sublist hs).imp ?_⟩
    · obtain ⟨i, hi⟩ := ho.written e (hs.subset he)
      exact ⟨i, hk hi⟩
    · rintro e f ⟨i, j, hi, hj, hl⟩
      exact ⟨i, j, hk hi, hk hj, hl⟩
  · -- The cell that is written comes before all others.
    rw [← hw] at hp
    have hk {q : Place} (hq : q ≠ p) {i : Nat} (h : LastWrite rs q i) :
        LastWrite (rs ++ [r]) q i :=
      h.concat (by rw [hp]; exact fun he => hq (Option.some.inj he).symm)
    have hf {e : Place × Value} (he : e ∈ h.cells.filter fun e => e.1 ≠ p) :
        e ∈ h.cells ∧ e.1 ≠ p := by simpa using he
    rw [ha]
    refine ⟨fun e he => ?_, ?_⟩
    · rcases Register.mem_put.1 he with rfl | ⟨he, hne⟩
      · exact ⟨_, lastWrite_concat hp⟩
      · obtain ⟨i, hi⟩ := ho.written e he
        exact ⟨i, hk hne hi⟩
    · rw [Register.cells_put, List.pairwise_cons]
      refine ⟨fun e he => ?_, ?_⟩
      · obtain ⟨he, hne⟩ := hf he
        obtain ⟨i, hi⟩ := ho.written e he
        exact ⟨_, i, lastWrite_concat hp, hk hne hi, hi.1.lt⟩
      · refine (ho.later.filter _).imp_of_mem fun he hf' h => ?_
        obtain ⟨i, j, hi, hj, hl⟩ := h
        exact ⟨i, j, hk (hf he).2 hi, hk (hf hf').2 hj, hl⟩

/-- The ledger after some requests shows the register after them, which is in order. -/
theorem history_shows (rs : List Request) : (history rs).Shows (rs.foldl Register.after .empty) ∧
    (rs.foldl Register.after .empty).Ordered rs := by
  induction rs using List.reverseRecOn with
  | nil => exact ⟨shows_empty, nofun, .nil⟩
  | append_singleton rs r ih =>
    obtain ⟨hl, ho⟩ := ih
    rw [history_concat, List.foldl_concat]
    exact ⟨backend_shows.after r hl, hl.ordered_after ho r⟩

/-- The index is correct. After any requests, a search of a contract for a value that no other
    value of a cell shares its digest with lists the cells that hold the value, each once, the
    one written last first. The index has no digest that is not that of the value of a cell. -/
theorem holders_spec (rs : List Request) (c : Address) :
    (∀ v, (∀ w ∈ (history rs).values, w.digest = v.digest → w = v) →
      (∀ x, x ∈ (history rs).holders c v ↔ (history rs).get? c x = some v) ∧
      ((history rs).holders c v).Nodup ∧
      ((history rs).holders c v).Pairwise fun x y => Later rs ⟨c, x⟩ ⟨c, y⟩) ∧
    ∀ d l, ((history rs).account c).recency.list? d = some l →
      ∃ x w, (history rs).get? c x = some w ∧ w.digest = d := by
  obtain ⟨hl, ho⟩ := history_shows rs
  generalize rs.foldl Register.after .empty = h at hl ho
  refine ⟨fun v hv => ?_, fun d l hd => ?_⟩
  · -- The holders are the list of a digest. That only `v` has this digest is needed for the
    -- members, not for the order.
    rw [hl.holders]
    have hp : (h.byDigest c v.digest).Pairwise fun x y => Later rs ⟨c, x⟩ ⟨c, y⟩ := by
      refine ho.later.filterMap _ ?_
      rintro ⟨⟨a, y⟩, u⟩ ⟨⟨a', y'⟩, u'⟩ h x hx x' hx'
      obtain ⟨⟨rfl, _⟩, rfl⟩ : (a = c ∧ u.digest = v.digest) ∧ y = x := by simpa using hx
      obtain ⟨⟨rfl, _⟩, rfl⟩ : (a' = a ∧ u'.digest = v.digest) ∧ y' = x' := by simpa using hx'
      exact h
    refine ⟨fun x => ?_, hp.imp fun h he => h.ne (by rw [he]), hp⟩
    rw [Register.mem_byDigest, hl.get?]
    constructor
    · rintro ⟨w, hw, hd⟩
      rw [hw, hv w ⟨c, x, (hl.get? c x).trans hw⟩ hd]
    · exact fun hx => ⟨v, hx, rfl⟩
  · rw [(hl c).recency] at hd
    -- An index has no lists that are empty, so the digest is that of a value.
    cases hk : h.byDigest c d with
    | nil =>
      rw [hk] at hd
      cases hd
    | cons x k =>
      obtain ⟨w, hw, hd⟩ := Register.mem_byDigest.1 (hk ▸ List.mem_cons_self : x ∈ h.byDigest c d)
      exact ⟨x, w, (hl.get? c x).trans hw, hd⟩

/-- A cell is written, another one is made a map and then gets the same value, and the first one
    is written again. -/
def rewritten : List Request :=
  [.write ⟨7⟩ (.root 1) (.ofWord64 5), .allocate ⟨7⟩ 2, .write ⟨7⟩ (.root 2) (.ofWord64 5),
    .allocate ⟨7⟩ 2, .write ⟨7⟩ (.root 1) (.ofWord64 5)]

/-- Two cells hold 5, and the first one has been written again since. It comes first. -/
theorem holders_spec_rewritten :
    (history rewritten).holders ⟨7⟩ (.ofWord64 5) = [.root 1, .root 2] ∧
      Later rewritten ⟨⟨7⟩, .root 1⟩ ⟨⟨7⟩, .root 2⟩ ∧
      (history rewritten).get? ⟨7⟩ (.root 2) = some (.ofWord64 5) := by
  have hv : ∀ w ∈ (history rewritten).values,
      w.digest = (Value.ofWord64 5).digest → w = .ofWord64 5 := by
    rw [(history_shows rewritten).1.values]
    rintro w ⟨p, hp⟩ -
    have hc : ∀ e ∈ (rewritten.foldl Register.after .empty).cells, e.2 = .ofWord64 5 := by
      decide +kernel
    exact hc _ hp
  obtain ⟨hm, _, hp⟩ := (holders_spec rewritten ⟨7⟩).1 (.ofWord64 5) hv
  have hl : (history rewritten).holders ⟨7⟩ (.ofWord64 5) = [.root 1, .root 2] := by decide +kernel
  rw [hl] at hm hp
  exact ⟨hl, List.rel_of_pairwise_cons hp (.head _), (hm (.root 2)).1 (.tail _ (.head _))⟩

end Ledger

end CreditMachine
