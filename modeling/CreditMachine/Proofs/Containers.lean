import CreditMachine.Proofs.Effects
import CreditMachine.Proofs.Lockstep
import CreditMachine.Proofs.Session
import Mathlib.Data.Set.Card

/-!
# Containers

The root of a slot tells which entries are under it (`Intact`): under an array
those with the keys below its length, under a map as many as it counts, and none
under anything else. Every change of a container keeps this, although it may take
two writes with a charge between them: if the machine aborts there, then the call
is not committed.

What could break it is a container of the greatest length, since lengths are
words that do not grow any further. So nothing is said after a write of one
(`Exchange.fills`).

* `Register.Intact.insert`, `push`, `erase`, `pop` and their like: what changes of
  containers keep;
* `Ledger.Called.intact`: all containers are intact after any calls.
-/

namespace CreditMachine

/-- The keys of the entries under the slot `s`, where the cells hold `g`. -/
def keys (g : Cell → Option Value) (s : Slot) : Set Key := {j | (g (.entry s j)).isSome}

/-- The root of the slot `s` tells which entries there are. -/
def Intact (g : Cell → Option Value) (s : Slot) : Prop :=
  match g (.root s) with
  | some (.array n) => keys g s = {j | j < n}
  | some (.map n) => (keys g s).encard = n.toNat
  | _ => keys g s = ∅

section Intact

variable {g g' : Cell → Option Value} {s : Slot} {n : UInt64}

/-- An array of `n` elements has entries under the keys below `n`, and under no others. -/
theorem intact_of_array (h : g (.root s) = some (.array n)) :
    Intact g s ↔ keys g s = {j | j < n} := by
  rw [Intact, h]

/-- A map of `n` entries has entries under so many keys. -/
theorem intact_of_map (h : g (.root s) = some (.map n)) :
    Intact g s ↔ (keys g s).encard = n.toNat := by
  rw [Intact, h]

/-- Under what is no container, there are no entries. -/
theorem intact_of_other (h : ∀ v, g (.root s) = some v → v.isContainer = false) :
    Intact g s ↔ keys g s = ∅ := by
  rw [Intact]
  split
  · next n hn => exact absurd (h _ hn) (by simp [Value.isContainer])
  · next n hn => exact absurd (h _ hn) (by simp [Value.isContainer])
  · rfl

/-- Whether a slot is intact depends on its own cells only. -/
theorem Intact.congr (h : Intact g s) (hg : ∀ x, x.slot = s → g' x = g x) : Intact g' s := by
  have hk : keys g' s = keys g s := by
    ext j
    rw [keys, Set.mem_ofPred_eq, hg (.entry s j) rfl]
    rfl
  rw [Intact, hg (.root s) rfl, hk]
  exact h

end Intact

/-- Whether a value is a container of the greatest length. -/
def Value.isFull : Value → Bool
  | .array n | .map n => n.toNat = ceiling
  | _ => false

/-- A length that has not become the greatest has grown by one. -/
theorem toNat_addSat_one {n : UInt64} (h : (addSat n 1).toNat ≠ ceiling) :
    (addSat n 1).toNat = n.toNat + 1 := by
  rw [addSat, toNat_clamp, UInt64.toNat_one] at h ⊢
  omega

/-- A count that is not zero can be counted down. -/
theorem toNat_sub_one {n : UInt64} (h : n ≠ 0) : (n - 1).toNat = n.toNat - 1 := by
  have h0 : n.toNat ≠ 0 := fun hn => h (UInt64.toNat_inj.1 hn)
  have hl : (1 : UInt64) ≤ n :=
    UInt64.le_iff_toNat_le.2 (show 1 ≤ n.toNat from Nat.one_le_iff_ne_zero.2 h0)
  rw [UInt64.toNat_sub_of_le _ _ hl]
  rfl

theorem eq_sub_one_of_add_one {x : ℕ∞} {n : ℕ} (h : x + 1 = n) : x = (n - 1 : ℕ) := by
  cases x with
  | top => simp at h
  | coe x =>
    have hx : x + 1 = n := by exact_mod_cast h
    rw [← hx, Nat.add_sub_cancel]

namespace Register

/-- What the cells of the contract `c` hold. -/
def contents (h : Register) (c : Address) (x : Cell) : Option Value := h.get? ⟨c, x⟩

/-- All containers are intact. -/
def Intact (h : Register) : Prop := ∀ c s, CreditMachine.Intact (h.contents c) s

variable {h k : Register} {c : Address} {s : Slot} {j : Key} {v : Value} {n : UInt64}

/-- The registers `h` and `k` differ at most in the slot `s` of the contract `c`. -/
def Beside (h k : Register) (c : Address) (s : Slot) : Prop :=
  ∀ d x, ¬(d = c ∧ x.slot = s) → k.contents d x = h.contents d x

/-- A change of one slot keeps all other containers intact. -/
theorem Intact.change (hh : h.Intact) (hk : h.Beside k c s)
    (hs : CreditMachine.Intact (k.contents c) s) : k.Intact := by
  intro d t
  by_cases hd : d = c ∧ t = s
  · obtain ⟨rfl, rfl⟩ := hd
    exact hs
  · refine (hh d t).congr fun x hx => hk d x ?_
    rwa [hx]

theorem contents_put (d : Address) (x y : Cell) : (h.put ⟨c, x⟩ v).contents d y =
    if d = c ∧ y = x then some v else h.contents d y := by
  rw [contents, get?_put]
  simp only [Place.mk.injEq]
  rfl

theorem contents_remove (d : Address) (x y : Cell) : (h.remove ⟨c, x⟩).contents d y =
    if d = c ∧ y = x then none else h.contents d y := by
  rw [contents, get?_remove]
  simp only [Place.mk.injEq]
  rfl

theorem contents_removeSlot (d : Address) (y : Cell) :
    (h.removeSlot ⟨c, .root s⟩).contents d y =
      if d = c ∧ y.slot = s then none else h.contents d y := by
  rw [contents, get?_removeSlot]
  simp only [Place.root_eq_iff]
  rfl

theorem beside_put_root : h.Beside (h.put ⟨c, .root s⟩ v) c s := by
  intro d y hy
  rw [contents_put, if_neg]
  rintro ⟨rfl, rfl⟩
  exact hy ⟨rfl, rfl⟩

theorem beside_put_entry : h.Beside (h.put ⟨c, .entry s j⟩ v) c s := by
  intro d y hy
  rw [contents_put, if_neg]
  rintro ⟨rfl, rfl⟩
  exact hy ⟨rfl, rfl⟩

theorem beside_remove_entry : h.Beside (h.remove ⟨c, .entry s j⟩) c s := by
  intro d y hy
  rw [contents_remove, if_neg]
  rintro ⟨rfl, rfl⟩
  exact hy ⟨rfl, rfl⟩

theorem beside_removeSlot : h.Beside (h.removeSlot ⟨c, .root s⟩) c s :=
  fun d y hy => by rw [contents_removeSlot, if_neg hy]

theorem Beside.trans {l : Register} (hk : h.Beside k c s) (hl : k.Beside l c s) : h.Beside l c s :=
  fun d x hx => (hl d x hx).trans (hk d x hx)

theorem keys_put_root : keys ((h.put ⟨c, .root s⟩ v).contents c) s = keys (h.contents c) s := by
  ext i
  simp [keys, contents_put, Cell.entry, Cell.root]

theorem keys_put_entry :
    keys ((h.put ⟨c, .entry s j⟩ v).contents c) s = insert j (keys (h.contents c) s) := by
  ext i
  by_cases hi : i = j <;> simp [keys, contents_put, Cell.entry, hi]

theorem keys_remove_entry :
    keys ((h.remove ⟨c, .entry s j⟩).contents c) s = keys (h.contents c) s \ {j} := by
  ext i
  by_cases hi : i = j <;> simp [keys, contents_remove, Cell.entry, hi]

theorem contents_put_root : (h.put ⟨c, .root s⟩ v).contents c (.root s) = some v := by
  rw [contents_put, if_pos ⟨rfl, rfl⟩]

theorem contents_put_entry :
    (h.put ⟨c, .entry s j⟩ v).contents c (.root s) = h.contents c (.root s) := by
  simp [contents_put, Cell.entry, Cell.root]

/-! ### What changes keep -/

/-- Some container has the greatest length. -/
def Full (h : Register) : Prop := ∃ c s v, h.contents c (.root s) = some v ∧ v.isFull

/-- A plain value may go where no container is: there are no entries to be left alone. -/
theorem Intact.storeRoot (hh : h.Intact) (hv : v.isContainer = false)
    (hw : ∀ w, h.contents c (.root s) = some w → w.isContainer = false) :
    (h.put ⟨c, .root s⟩ v).Intact := by
  refine hh.change beside_put_root ?_
  rw [intact_of_other, keys_put_root]
  · exact (intact_of_other hw).1 (hh c s)
  · rw [contents_put_root]
    rintro _ ⟨⟩
    exact hv

/-- An entry that is there gets another value. -/
theorem Intact.replace (hh : h.Intact) (hj : j ∈ keys (h.contents c) s) :
    (h.put ⟨c, .entry s j⟩ v).Intact := by
  refine hh.change beside_put_entry ?_
  have hs := hh c s
  rw [CreditMachine.Intact] at hs ⊢
  rwa [contents_put_entry, keys_put_entry, Set.insert_eq_of_mem hj]

/-- A map gets an entry that was not there. -/
theorem Intact.insert (hh : h.Intact) (hn : h.contents c (.root s) = some (.map n))
    (hj : j ∉ keys (h.contents c) s) :
    ((h.put ⟨c, .entry s j⟩ v).put ⟨c, .root s⟩ (.map (addSat n 1))).Full ∨
      ((h.put ⟨c, .entry s j⟩ v).put ⟨c, .root s⟩ (.map (addSat n 1))).Intact := by
  -- A count that becomes the greatest may have been the greatest before, and is
  -- then wrong.
  by_cases hl : (addSat n 1).toNat = ceiling
  · exact .inl ⟨c, s, _, contents_put_root, by simpa [Value.isFull] using hl⟩
  · refine .inr (hh.change (beside_put_entry.trans beside_put_root) ?_)
    rw [intact_of_map contents_put_root, keys_put_root, keys_put_entry,
      Set.encard_insert_of_notMem hj, (intact_of_map hn).1 (hh c s), toNat_addSat_one hl]
    rfl

/-- An array gets one more entry. -/
theorem Intact.push (hh : h.Intact) (hn : h.contents c (.root s) = some (.array n)) :
    ((h.put ⟨c, .entry s n⟩ v).put ⟨c, .root s⟩ (.array (addSat n 1))).Full ∨
      ((h.put ⟨c, .entry s n⟩ v).put ⟨c, .root s⟩ (.array (addSat n 1))).Intact := by
  by_cases hl : (addSat n 1).toNat = ceiling
  · exact .inl ⟨c, s, _, contents_put_root, by simpa [Value.isFull] using hl⟩
  · refine .inr (hh.change (beside_put_entry.trans beside_put_root) ?_)
    rw [intact_of_array contents_put_root, keys_put_root, keys_put_entry,
      (intact_of_array hn).1 (hh c s)]
    ext i
    simp only [Set.mem_insert_iff, Set.mem_ofPred_eq, UInt64.lt_iff_toNat_lt, toNat_addSat_one hl,
      ← UInt64.toNat_inj]
    omega

/-- A map loses an entry that was there. -/
theorem Intact.erase (hh : h.Intact) (hn : h.contents c (.root s) = some (.map n))
    (hj : j ∈ keys (h.contents c) s) :
    ((h.remove ⟨c, .entry s j⟩).put ⟨c, .root s⟩ (.map (if n = 0 then 0 else n - 1))).Intact := by
  refine hh.change (beside_remove_entry.trans beside_put_root) ?_
  have hs := (intact_of_map hn).1 (hh c s)
  rw [← Set.encard_sdiff_singleton_add_one hj] at hs
  rw [intact_of_map contents_put_root, keys_put_root, keys_remove_entry, eq_sub_one_of_add_one hs]
  -- The entry that was there has been counted.
  have h0 : n ≠ 0 := by
    rintro rfl
    simp at hs
  rw [if_neg h0, toNat_sub_one h0]

/-- An array loses its last entry. -/
theorem Intact.pop (hh : h.Intact) (hn : h.contents c (.root s) = some (.array n)) (h0 : n ≠ 0) :
    ((h.remove ⟨c, .entry s (n - 1)⟩).put ⟨c, .root s⟩ (.array (n - 1))).Intact := by
  refine hh.change (beside_remove_entry.trans beside_put_root) ?_
  rw [intact_of_array contents_put_root, keys_put_root, keys_remove_entry,
    (intact_of_array hn).1 (hh c s)]
  ext i
  simp only [Set.mem_sdiff, Set.mem_singleton_iff, Set.mem_ofPred_eq, UInt64.lt_iff_toNat_lt,
    ← UInt64.toNat_inj, toNat_sub_one h0]
  omega

/-- A slot is removed. -/
theorem Intact.removeSlot (hh : h.Intact) : (h.removeSlot ⟨c, .root s⟩).Intact := by
  refine hh.change beside_removeSlot ?_
  have hr : (h.removeSlot ⟨c, .root s⟩).contents c (.root s) = none := by
    rw [contents_removeSlot, if_pos ⟨rfl, rfl⟩]
  rw [intact_of_other (by simp [hr])]
  ext j
  simp [keys, contents_removeSlot, Cell.entry]

/-- An absent root gets an empty container. -/
theorem Intact.create (hh : h.Intact) (hs : h.contents c (.root s) = none)
    (hv : v = .map 0 ∨ v = .array 0) : (h.put ⟨c, .root s⟩ v).Intact := by
  refine hh.change beside_put_root ?_
  have hk : keys (h.contents c) s = ∅ := (intact_of_other (by simp [hs])).1 (hh c s)
  rcases hv with rfl | rfl
  · rw [intact_of_map contents_put_root, keys_put_root, hk]
    simp
  · rw [intact_of_array contents_put_root, keys_put_root, hk]
    ext i
    simp

/-- In an empty storage there is nothing that could be broken. -/
theorem intact_empty : empty.Intact := by
  intro c s
  have hn (x : Cell) : empty.contents c x = none := rfl
  rw [intact_of_other (by simp [hn])]
  ext j
  simp [keys, hn]

/-- Nor is there a container without room. -/
theorem not_full_empty : ¬empty.Full := by
  rintro ⟨c, s, v, hv, _⟩
  cases hv

/-- A request makes no container full but the one that it writes to a root. -/
theorem full_after {r : Request} (hk : (h.after r).Full) :
    h.Full ∨ ∃ c s v, r = .write c (.root s) v ∧ v.isFull := by
  obtain ⟨d, t, w, hw, hf⟩ := hk
  have full_put (c : Address) (x : Cell) (v : Value)
      (hw : (h.put ⟨c, x⟩ v).contents d (.root t) = some w) : h.Full ∨ x = .root t ∧ w = v := by
    rw [contents_put] at hw
    split at hw
    · next he =>
      cases hw
      exact .inr ⟨he.2.symm, rfl⟩
    · exact .inl ⟨d, t, w, hw, hf⟩
  have full_filter (f : Place → Bool) (hw : (h.filter f).contents d (.root t) = some w) :
      h.Full := by
    rw [contents, get?_filter] at hw
    split at hw
    · exact ⟨d, t, w, hw, hf⟩
    · cases hw
  -- What a request leaves is a register with one cell more, or with some cells less.
  cases r with
  | read | holders => exact .inl ⟨d, t, w, hw, hf⟩
  | write c x v =>
    rcases full_put c x v hw with h | ⟨rfl, rfl⟩
    · exact .inl h
    · exact .inr ⟨c, t, w, rfl, hf⟩
  | erase | eraseEntry => exact .inl (full_filter _ hw)
  | allocate c s =>
    rw [after] at hw
    split at hw
    · exact .inl ⟨d, t, w, hw, hf⟩
    · rcases full_put c _ _ hw with h | ⟨_, rfl⟩
      · exact .inl h
      · cases hf

end Register

/-! ### Executions -/

/-- Whether a container of the greatest length is written. -/
def Exchange.fills : Exchange → Bool
  | .request (.write _ x v) _ => x.isRoot && v.isFull
  | _ => false

section Held

variable {σ α : Type} {b : Backend σ} {R : σ → Register → Prop}

/-- Notes are taken of the writes that make containers full. -/
def Noted (R : σ → Register → Prop) (t : List Exchange × σ) (h : Register) : Prop :=
  R t.2 h ∧ (h.Full → ∃ e ∈ t.1, e.fills)

/-- Requests that are noted are answered as without the notes, and what fills a container is among
    them. -/
theorem noting_shows (hb : b.Shows R) : b.noting.Shows (Noted R) where
  answer r ht := hb.answer r ht.1
  after {t h} r ht := by
    refine ⟨hb.after r ht.1, fun hf => ?_⟩
    obtain ⟨l, s⟩ := t
    rcases Register.full_after hf with hf | ⟨c, s, v, rfl, hv⟩
    · obtain ⟨e, he, hf⟩ := ht.2 hf
      exact ⟨e, List.mem_append_left _ he, hf⟩
    · exact ⟨_, List.mem_append_right _ (List.mem_singleton_self _), hv⟩

/-- An execution that keeps containers intact, as long as none is full. -/
def held (R : σ → Register → Prop) : Lockstep (List Exchange × σ) (List Exchange × σ) where
  Rel s t := s = t ∧ ∃ h, Noted R t h ∧ h.Intact
  Lost t := ∃ e ∈ t.1, e.fills
  Off _ _ := True
  May _ := True
  own _ := trivial

/-- Where nothing is claimed but what is lost. -/
def lostOnly (R : σ → Register → Prop) : Lockstep (List Exchange × σ) (List Exchange × σ) :=
  { held R with Rel := fun _ _ => False }

/-- What has been noted stays noted. -/
theorem lost_noting (R : σ → Register → Prop) (b : Backend σ) (r : Request)
    (t : List Exchange × σ) (ht : (held R).Lost t) : (held R).Lost (b.noting r t).2 := by
  obtain ⟨e, he, hf⟩ := ht
  exact ⟨e, List.mem_append_left _ he, hf⟩

/-- Requests that are noted are coupled with themselves, whatever they come to. -/
theorem writes_lostOnly (R : σ → Register → Prop) (b : Backend σ) :
    (lostOnly R).coupling.Writes b.noting b.noting := by
  have ha : (lostOnly R).Agree b.noting b.noting := ⟨lost_noting R b, fun _ _ _ h => h.elim⟩
  exact ha.asks.writes

/-- What keeps containers intact whenever it does not abort. -/
theorem tied_of_does {x : Exec (List Exchange × σ) α} (hx : (lostOnly R).coupling.Tied x x)
    (hd : ∀ c h, h.Intact → Exec.Does (Noted R) c h x fun _ k => k.Full ∨ k.Intact) :
    (held R).coupling.Tied x x where
  lost := hx.lost
  first := hx.first
  second := hx.second
  ends {m s m' t} h := by
    obtain ⟨rfl, rfl, h, ht, hh⟩ := h
    have hd := hd m.contract h hh m s
    generalize x m s = a at hd ⊢
    rcases a with ⟨⟨_ | v, m'⟩, s'⟩
    · -- It may have aborted between two writes.
      exact .off trivial
    · rcases hd v m' s' rfl ht rfl with ⟨_, k, hk, hf | hi⟩
      · exact .lost (hk.2 hf)
      · exact .ok ⟨rfl, rfl, k, hk, hi⟩

/-- Every instruction that changes a container leaves all containers intact, unless it has noted a
    container without room. -/
theorem writes_held (hb : b.Shows R) : (held R).coupling.Writes b.noting b.noting where
  charge := Lockstep.tied_charge
  guard := Lockstep.tied_guard
  delegate := Lockstep.tied_delegate
  load x := tied_of_does ((writes_lostOnly R b).load x) fun c h hh =>
    .last (.load (noting_shows hb) (.done (.inr hh)))
  search v := tied_of_does ((writes_lostOnly R b).search v) fun c h hh =>
    (Exec.Does.search (noting_shows hb) v).mono fun _ _ hk => .inr (hk ▸ hh)
  storeRoot o s v := tied_of_does ((writes_lostOnly R b).storeRoot o s v) fun c h hh =>
    (Exec.Does.storeRoot (noting_shows hb) o s v).mono fun _ k ⟨hv, hw, hk⟩ =>
      .inr (hk ▸ hh.storeRoot hv hw)
  storeEntry o s j v := tied_of_does ((writes_lostOnly R b).storeEntry o s j v) fun c h hh => by
    refine (Exec.Does.storeEntry (noting_shows hb) o s j v).mono ?_
    rintro _ k (⟨n, hn, rfl⟩ | ⟨n, hn, hj, rfl⟩)
    · split
      · next hj => exact .inr (hh.replace hj)
      · next hj => exact hh.insert hn hj
    · -- An array has an entry with every key below its length, and no other.
      split
      · next hl =>
        have hm : j ∈ keys (h.contents c) s := by
          rw [(intact_of_array hn).1 (hh c s)]
          exact hl
        exact .inr (hh.replace hm)
      · next hl =>
        obtain rfl : j = n := UInt64.le_antisymm hj (UInt64.not_lt.1 hl)
        exact hh.push hn
  removeEntry o s j := tied_of_does ((writes_lostOnly R b).removeEntry o s j) fun c h hh => by
    refine (Exec.Does.removeEntry (noting_shows hb) o s j).mono ?_
    rintro _ k (⟨n, hn, rfl⟩ | ⟨n, hn, h0, rfl, rfl⟩)
    · split
      · next hj => exact .inr (hh.erase hn hj)
      · exact .inr hh
    · exact .inr (hh.pop hn h0)
  erase s := tied_of_does ((writes_lostOnly R b).erase s) fun c h hh =>
    (Exec.Does.erase (noting_shows hb) s).mono fun _ k hk => .inr (hk ▸ hh.removeSlot)
  newMap o s := tied_of_does ((writes_lostOnly R b).newMap o s) fun c h hh => by
    refine (Exec.Does.newMap (noting_shows hb) o s).mono ?_
    rintro _ _ rfl
    split
    · exact .inr hh
    · next hs => exact .inr (hh.create (Option.not_isSome_iff_eq_none.1 hs) (.inl rfl))
  newArray o s := tied_of_does ((writes_lostOnly R b).newArray o s) fun c h hh => by
    refine (Exec.Does.newArray (noting_shows hb) o s).mono ?_
    rintro _ _ rfl
    split
    · exact .inr hh
    · next hs => exact .inr (hh.create (Option.not_isSome_iff_eq_none.1 hs) (.inr rfl))
  append o s v := tied_of_does ((writes_lostOnly R b).append o s v) fun c h hh => by
    refine (Exec.Does.append (noting_shows hb) o s v).mono ?_
    rintro _ _ ⟨n, hn, rfl⟩
    exact hh.push hn

end Held

/-! ### Calls -/

namespace Call

variable (q : Call) (p : Program) (registry : Registry) {l : Ledger}

/-- What an attempt asks of the overlay. -/
def requests (l : Ledger) : List Exchange :=
  ((q.machine p registry).call (Meter.backend (Overlay.backend Ledger.backend)).noting q.entry
    q.args q.credits ([], .new q.readOnly, .empty, l)).2.1

/-- An attempt that is to be committed leaves containers intact, as long as none is
    full. -/
theorem attempt_intact {h : Register} (hl : l.Shows h) (hh : h.Intact) (hf : ¬h.Full)
    (hc : q.commits (q.attempt Ledger.backend p registry l).1)
    (hn : ∀ e ∈ q.requests p registry l, e.fills = false) :
    ∃ g k, l.Shows g ∧ (q.attempt Ledger.backend p registry l).1.overlay.Shows g k ∧ k.Intact ∧
      ¬k.Full := by
  obtain ⟨hr, hq⟩ := Bool.and_eq_true_iff.1 hc
  have hq : q.readOnly = false := by simpa using hq
  have hb := Meter.backend_shows (Overlay.backend_shows Ledger.backend_shows)
  have hs : Noted (Meter.ShowsOver (Overlay.ShowsOver Ledger.Shows))
      ([], .new q.readOnly, .empty, l) h :=
    ⟨⟨hq, h, hl, Overlay.shows_empty h⟩, fun h => absurd h hf⟩
  have he := Lockstep.call (writes_held hb).joins (q.machine p registry) q.entry q.args q.credits
    (show (held _).Rel _ _ from ⟨rfl, h, hs, hh⟩)
  have hb := q.attempt_below p registry l
  rw [requests] at hn
  rw [attempt, Machine.call_noting _ _ _ _ _ []] at hr hb ⊢
  generalize (q.machine p registry).call (Meter.backend (Overlay.backend Ledger.backend)).noting
    q.entry q.args q.credits ([], Meter.new q.readOnly, Overlay.empty, l) = y at he hn hr hb ⊢
  -- A container that is full has been noted.
  have lost (ht : ∃ e ∈ y.2.1, e.fills) : False := by
    obtain ⟨e, he, hf⟩ := ht
    rw [hn e he] at hf
    cases hf
  cases he with
  | lost ht => exact (lost ht).elim
  | off | error =>
    -- What has aborted is not committed.
    cases hr
  | ok ht =>
    obtain ⟨_, _, k, ⟨⟨_, g, hg, ho⟩, hk⟩, hi⟩ := ht
    obtain rfl : _ = l := hb
    exact ⟨g, k, hg, ho, hi, fun hf => lost (hk hf)⟩

end Call

namespace Ledger

/-- The ledgers that calls lead to, as long as no call is committed that makes a
    container full. -/
inductive Called : Ledger → Prop
  | empty : Called empty
  | call {l : Ledger} (q : Call) (p : Program) (registry : Registry) (c : Settings) :
    Called l →
    (q.commits (q.attempt backend p registry l).1 →
      ∀ e ∈ q.requests p registry l, e.fills = false) →
    Called (q.execute backend p registry c l).2

/-- By induction on the calls: none of them has broken a container. -/
theorem Called.shows {l : Ledger} (hl : l.Called) : ∃ h, l.Shows h ∧ h.Intact ∧ ¬h.Full := by
  induction hl with
  | empty => exact ⟨.empty, shows_empty, Register.intact_empty, Register.not_full_empty⟩
  | @call l q p registry c _ hn ih =>
    obtain ⟨h, hl, hh, hf⟩ := ih
    have hs := Call.attempt_intact q p registry hl hh hf
    have hb := q.attempt_below p registry l
    rw [Call.execute]
    split
    · generalize q.attempt backend p registry l = x at hn hs hb ⊢
      obtain ⟨a, _⟩ := x
      obtain rfl := hb
      dsimp only at hn hs ⊢
      by_cases hc : q.commits a
      · obtain ⟨g, k, hg, ho, hk⟩ := hs hc (hn hc)
        obtain ⟨t, ht, hs, _⟩ := Overlay.commit_shows backend_shows hg ho
        rw [Call.settle_commit hc ht]
        exact ⟨k, hs, hk⟩
      · -- The ledger is as before: nothing is committed.
        rw [Call.settle_snd (by simpa using hc)]
        exact ⟨h, hl, hh, hf⟩
    · -- There is no such entry in the program.
      exact ⟨h, hl, hh, hf⟩

/-- After any calls, all containers are intact. -/
theorem Called.intact {l : Ledger} (hl : l.Called) (c : Address) (s : Slot) :
    Intact (l.get? c) s := by
  obtain ⟨h, hl, hh, _⟩ := hl.shows
  rw [show l.get? c = h.contents c from funext (hl.get? c)]
  exact hh c s

/-- The ledger after a call that makes a map and fills it. -/
theorem Called.intact_sample :
    let l := (Call.sample.execute backend Call.sampleProgram (fun _ => none) .usual .empty).2
    l.get? ⟨7⟩ (.root 0) = some (.map 1) ∧ Intact (l.get? ⟨7⟩) 0 := by
  have hn : ∀ e ∈ Call.sample.requests Call.sampleProgram (fun _ => none) .empty,
      e.fills = false := by decide +kernel
  exact ⟨by decide +kernel, Called.intact (.call _ _ _ _ .empty fun _ => hn) _ _⟩

end Ledger

end CreditMachine
