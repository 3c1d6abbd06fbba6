import CreditMachine.Proofs.Collections

/-!
# Accesses to containers

The instructions that work on containers ask and change the collections that these stand for
(`Exec.turn_accesses`). Each is an *access*: a query, whose answer goes to a slot of the active
frame, or an update (`Machine.Accesses`). It comes to what is told of collections, changes no
other slot, and has a price that depends on the collection, no matter how the container is kept.
-/

namespace CreditMachine

/-- What an instruction does to a collection. -/
inductive Access
  /-- The answer goes to the slot `i` of the active frame. -/
  | query (i : Nat) (q : Query)
  | update (u : Update)

/-- The price of the root of a container. -/
def rootPrice : Nat := 9

namespace Collection

/-- The price of what is read for an answer. -/
def answerPrice (c : Collection) : Query → Nat
  | .load k => rootPrice + cellPrice (c.get? k)
  | .present k => cellPrice (c.get? k)
  | .size => rootPrice

/-- The price of what is read and written for an update. The root is written where the size
    changes. -/
def updatePrice : Collection → Update → Nat
  | list l, .store k v => rootPrice + if l.length < k.toNat then 0 else
      v.price + if k.toNat = l.length then rootPrice else 0
  | map f, .store k v => rootPrice + (cellPrice f[k]? + (v.price + if k ∈ f then 0 else rootPrice))
  | list _, .append v => rootPrice + (v.price + rootPrice)
  | map _, .append _ => rootPrice
  | list l, .delete k => rootPrice + if 0 < l.length ∧ k.toNat = l.length - 1 then rootPrice else 0
  | map f, .delete k => rootPrice + (cellPrice f[k]? + if k ∈ f then rootPrice else 0)
  | _, .erase => 0

def price (c : Collection) : Access → Nat
  | .query _ q => c.answerPrice q
  | .update u => c.updatePrice u

/-- The container, as instructions find it. -/
def container : Collection → Exec.Container
  | list l => .array (UInt64.ofNat l.length)
  | map f => .map (UInt64.ofNat f.size)

/-- What is left of a collection at the slot `t`: its container, or nothing at all. -/
def Left (c : Option Collection) (g : Cell → Option Value) (t : Slot) : Prop :=
  match c with
  | some c => c.At g t
  | none => ∀ x, x.slot = t → g x = none

/-- A root that is a container has one price, whatever the container holds. -/
theorem At.cellPrice_root {c : Collection} {g : Cell → Option Value} {t : Slot} (hc : c.At g t) :
    cellPrice (g (.root t)) = rootPrice := by
  rw [hc.root]
  cases c <;> rfl

/-- A collection whose container is not of the greatest length has room for one more entry. -/
theorem At.size_lt {c : Collection} {g : Cell → Option Value} {t : Slot} (hc : c.At g t)
    (hf : c.root.isFull = false) : c.size < ceiling := by
  have hs := toNat_ofNat hc.size
  refine Nat.lt_of_le_of_ne hc.size fun hn => ?_
  have hl : c.root.isFull = decide ((UInt64.ofNat c.size).toNat = ceiling) := by cases c <;> rfl
  rw [hl, hs, hn, decide_eq_true rfl] at hf
  cases hf

end Collection

/-- The root of a slot as the value of an operand. -/
theorem value?_root {m : Machine} {x : Operand} {g : Cell → Option Value} {t : Slot} {v : Value}
    (hx : x.root? = some t) (hv : g (.root t) = some v) : m.value? g x = some v := by
  cases x with
  | addr a =>
    rw [Operand.root?] at hx
    rw [Machine.value?]
    split at hx
    · next hr =>
      cases hx
      rw [hr]
      exact congrArg (fun w => some (w.getD .nil)) hv
    · cases hx
  | _ => cases hx

/-- An operand that names the root of a container costs as much as the root does. -/
theorem price_root {x : Operand} {g : Cell → Option Value} {t : Slot} {c : Collection}
    (hx : x.root? = some t) (hc : c.At g t) : x.price g = rootPrice := by
  rw [Operand.price, hx]
  exact hc.cellPrice_root

namespace Machine

/-- The instruction `o` with the operands `l` is an access to the slot `t`, where the cells of the
    contract hold `g`. Its operands have the price `n`. -/
inductive Accesses (m : Machine) (g : Cell → Option Value) (t : Slot) :
    Opcode → Vector Operand 3 → Nat → Access → Prop
  | sload {l i k} : m.local? l[0] = some i → l[1].root? = some t → m.key? g l[2] = some k →
    Accesses m g t .sload l (l[2].price g) (.query i (.load k))
  | present {l i k} : m.local? l[0] = some i → l[1].root? = some t → m.key? g l[2] = some k →
    Accesses m g t .present l (l[2].price g) (.query i (.present k))
  | len {l i} : m.local? l[0] = some i → l[1].root? = some t →
    Accesses m g t .len l 0 (.query i .size)
  | sstore {l k v} : l[0].root? = some t → m.key? g l[1] = some k → m.value? g l[2] = some v →
    Accesses m g t .sstore l (l[1].price g + l[2].price g) (.update (.store k v))
  | storeref {l k v} : m.value? g l[0] = some (.ref (.entry t k)) → m.value? g l[1] = some v →
    Accesses m g t .storeref l (l[0].price g + l[1].price g) (.update (.store k v))
  | append {l v} : l[0].root? = some t → m.value? g l[1] = some v →
    Accesses m g t .append l (l[1].price g) (.update (.append v))
  | sdel {l k} : l[0].root? = some t → m.key? g l[1] = some k →
    Accesses m g t .sdel l (l[1].price g) (.update (.delete k))
  | serase {l} : l[0].root? = some t → Accesses m g t .serase l 0 (.update .erase)

/-- An access to the collection `c` at the slot `t`, on the machine `m` and the register `h`, comes
    to `r`, another machine and another register. -/
inductive Accessed (m : Machine) (h : Register) (t : Slot) (c : Collection) :
    Access → Except Abort Unit → Machine → Register → Prop
  | answered {i q v} : c.answer q = .ok v → Accessed m h t c (.query i q) (.ok ()) (m.put i v) h
  | refused {i q e} : c.answer q = .error e → Accessed m h t c (.query i q) (.error e) m h
  | updated {u d h'} : c.update u = .ok d → Collection.Left d (h'.contents m.contract) t →
    h.Beside h' m.contract t → Accessed m h t c (.update u) (.ok ()) m h'
  | failed {u e} : c.update u = .error e → Accessed m h t c (.update u) (.error e) m h

/-- Fetching an instruction changes no operand of an access. -/
theorem Accesses.fetched {m : Machine} {g : Cell → Option Value} {t : Slot} {o : Opcode}
    {l : Vector Operand 3} {n : Nat} {a : Access} (h : m.Accesses g t o l n a) :
    m.fetched.Accesses g t o l n a := by
  cases h <;> constructor <;> assumption

end Machine

namespace Exec

variable {σ α : Type}

/-- Executed on the machine `m`, of whose operands `l` the first `i` have been taken, `x` makes an
    access to the collection `c` at the slot `t`, at the price `n`. It may take more operands. -/
def Acts (R : σ → Register → Prop) (x : Exec σ Unit) (m : Machine) (l : Vector Operand 3) (i : Nat)
    (h : Register) (t : Slot) (c : Collection) (n : Nat) (a : Access) : Prop :=
  ∃ r m' h' j, m.Accessed h t c a r m' h' ∧ Comes R x (m.taking l i) h n r (m'.taking l j) h'

variable {R : σ → Register → Prop} {m : Machine} {l : Vector Operand 3} {i j : Nat} {h : Register}
  {t : Slot} {c : Collection} {n n' : Nat} {a : Access}

namespace Acts

theorem cast {x : Exec σ Unit} (hx : Acts R x m l i h t c n a) (hn : n = n') :
    Acts R x m l i h t c n' a := hn ▸ hx

variable {x : Exec σ α} {f : α → Exec σ Unit} {v : α}

/-- Before an access, something is executed that leaves all as it is but takes operands. -/
theorem after (hx : Comes R x (m.taking l i) h n (.ok v) (m.taking l j) h)
    (hf : Acts R (f v) m l j h t c n' a) : Acts R (x >>= f) m l i h t c (n + n') a := by
  obtain ⟨r, m', h', k, ha, hf⟩ := hf
  exact ⟨r, m', h', k, ha, hx.bind hf⟩

/-- What is free adds nothing to the price of an access. -/
theorem free_after (hx : Comes R x (m.taking l i) h 0 (.ok v) (m.taking l j) h)
    (hf : Acts R (f v) m l j h t c n a) : Acts R (x >>= f) m l i h t c n a :=
  (after hx hf).cast (Nat.zero_add n)

end Acts

/-- A result goes to a slot of the active frame, whatever operands have been taken. -/
theorem write_comes (b : Backend σ) {o : Opcode} {y : UInt64} {q : Nat}
    (ha : Region.ofAddress? y = some (.stack q)) (hq : (m.stackValue q).isSome) (v : Value) :
    Comes R (write b o y v) (m.taking l j) h 0 (.ok ()) ((m.put q v).taking l j) h := by
  have hw := Comes.write (R := R) (m := m.taking l j) (h := h) (o := o) b ha hq v
  rwa [Machine.put_taking] at hw

variable {b : Backend σ} {k : Key} {v : Value}

section Accesses

variable (hb : b.Shows R) (hc : c.At (h.contents m.contract) t)

include hb hc

/-- The root of a collection is read as the container that stands for it. -/
theorem root_comes : Comes R (load b (.root t)) (m.taking l j) h rootPrice (.ok (some c.root))
    (m.taking l j) h := by
  have hl : Comes R _ (m.taking l j) h rootPrice (.ok (h.contents m.contract (.root t))) _ h :=
    (Comes.load (m := m.taking l j) hb (.root t)).cast hc.cellPrice_root
  rwa [hc.root] at hl

/-- An entry is read as the collection has it, and has the price of what it holds. -/
theorem entry_comes (k : Key) :
    Comes R (load b (.entry t k)) (m.taking l j) h (cellPrice (c.get? k)) (.ok (c.get? k))
      (m.taking l j) h :=
  hc.entries k ▸ .load (m := m.taking l j) hb _

/-- An instruction finds the container of the collection, and pays for its root. -/
theorem container_comes (o : Opcode) :
    Comes R (container b o t) (m.taking l j) h rootPrice (.ok c.container) (m.taking l j) h := by
  refine (root_comes hb hc).bind_free ?_
  cases c with
  | list l => exact .pure _
  | map f => exact .pure _

/-! ### Queries -/

/-- `SLOAD` answers what is under the key. In a list there may be no such element, and then it
    aborts with the index; in a map what is missing is answered with nil. -/
theorem acts_sload (x : Exec σ Unit) (p : Program) (hd : m.local? l[0] = some i)
    (hr : l[1].root? = some t) (hk : m.key? (h.contents m.contract) l[2] = some k) :
    Acts R (execute b .sload x p) m l 0 h t c
      (l[2].price (h.contents m.contract) + c.answerPrice (.load k)) (.query i (.load k)) := by
  obtain ⟨a, ha, hi, hx⟩ := Comes.destination (o := .sload) (i := 0) hd
  refine .free_after hx (.free_after (.root (i := 1) hr) (.after (.key (i := 2) hb hk) ?_))
  refine .after (container_comes hb hc _) ?_
  have hl := entry_comes (l := l) (j := 3) hb hc k
  cases c with
  | list s =>
    have hs := hc.toNat_length
    dsimp only [Collection.container, Collection.get?] at hl ⊢
    cases hv : s[k.toNat]? with
    | some v =>
      have hk : k.toNat < s.length := (List.getElem?_eq_some_iff.1 hv).1
      rw [hv] at hl
      rw [if_neg (by rwa [UInt64.le_iff_toNat_le, hs, Nat.not_le])]
      exact ⟨_, _, _, _, .answered (by rw [Collection.answer, hv]),
        hl.bind_free (write_comes b ha hi v)⟩
    | none =>
      have hk : s.length ≤ k.toNat := List.getElem?_eq_none_iff.1 hv
      rw [if_pos (by rwa [UInt64.le_iff_toNat_le, hs])]
      exact ⟨_, _, _, _, .refused (by rw [Collection.answer, hv]), .bind_error (.throw _)⟩
  | map f => exact ⟨_, _, _, _, .answered rfl, hl.bind_free (write_comes b ha hi _)⟩

/-- `EXISTS` with a key tells whether there is an entry under it. It does not look at the root. -/
theorem acts_present (x : Exec σ Unit) (p : Program) (hd : m.local? l[0] = some i)
    (hr : l[1].root? = some t) (hk : m.key? (h.contents m.contract) l[2] = some k) :
    Acts R (execute b .present x p) m l 0 h t c
      (l[2].price (h.contents m.contract) + c.answerPrice (.present k))
      (.query i (.present k)) := by
  obtain ⟨a, ha, hi, hx⟩ := Comes.destination (o := .present) (i := 0) hd
  have hl := entry_comes (l := l) (j := 3) hb hc k
  refine .free_after hx (.free_after (.root (i := 1) hr) (.after (.optionalKey (i := 2) hb hk) ?_))
  cases c <;> exact ⟨_, _, _, _, .answered rfl, hl.bind_free (write_comes b ha hi _)⟩

/-- `LEN` of a root answers the number of entries, which the root holds. -/
theorem acts_len (x : Exec σ Unit) (p : Program) (hd : m.local? l[0] = some i)
    (hr : l[1].root? = some t) :
    Acts R (execute b .len x p) m l 0 h t c (c.answerPrice .size) (.query i .size) := by
  obtain ⟨a, ha, hi, hx⟩ := Comes.destination (o := .len) (i := 0) hd
  refine .free_after hx ?_
  have hs : Comes R (source b .len) (m.taking l 1) h rootPrice (.ok c.root) (m.taking l 2) h :=
    (Comes.source (i := 1) hb (value?_root hr hc.root)).cast (price_root hr hc)
  cases c <;>
    exact ⟨_, _, _, _, .answered rfl, hs.bind_free (.free_bind (.check _) (write_comes b ha hi _))⟩

/-! ### Updates -/

/-- What `SSTORE` and `STOREREF` have in common: in a list they replace an element, or add one where
    the next one would be; in a map they replace an entry or add one. -/
theorem acts_storeEntry (hn : c.size < ceiling) (o : Opcode) (k : Key) (v : Value) :
    Acts R (storeEntry b o t k v) m l j h t c (c.updatePrice (.store k v))
      (.update (.store k v)) := by
  have hx := container_comes (l := l) (j := j) hb hc o
  have hp : Comes R (store b (.entry t k) v) (m.taking l j) h v.price (.ok ()) (m.taking l j)
      (h.put ⟨m.contract, .entry t k⟩ v) := .store hb _ v
  cases c with
  | list s =>
    have hs := hc.toNat_length
    refine .after hx ?_
    simp only [Collection.container, UInt64.lt_iff_toNat_lt, ← UInt64.toNat_inj, hs]
    -- The key is of an element, of the one after the last, or of none that could be added.
    rcases Nat.lt_trichotomy k.toNat s.length with hk | hk | hk
    · rw [if_neg hk.not_gt, if_neg hk.ne, if_neg hk.not_gt, if_neg hk.ne]
      exact ⟨_, _, _, _, .updated (if_pos hk) (Collection.at_set hc hk) Register.beside_put_entry,
        hp.bind (.pure _)⟩
    · rw [if_neg hk.not_gt, if_pos hk, if_neg hk.not_gt, if_pos hk]
      refine ⟨_, m, _, j, .updated ((if_neg hk.not_lt).trans (if_pos hk))
        (Collection.at_push hc hn hk) (Register.beside_put_entry.trans Register.beside_put_root),
        hp.bind ?_⟩
      rw [← UInt64.toNat_inj.1 (hk.trans hs.symm)]
      exact .store hb _ _
    · rw [if_pos hk, if_pos hk]
      exact ⟨_, _, _, _, .failed ((if_neg hk.not_gt).trans (if_neg hk.ne')), .bind_error (.throw _)⟩
  | map f =>
    refine .after hx (.after (entry_comes hb hc k) ?_)
    dsimp only [Collection.get?]
    by_cases hk : k ∈ f
    · rw [if_pos hk, if_neg (by simpa using hk)]
      exact ⟨_, _, _, _, .updated rfl (Collection.at_replace hc hk) Register.beside_put_entry,
        hp.bind (.pure _)⟩
    · rw [if_neg hk, if_pos (by simpa using hk)]
      exact ⟨_, _, _, _, .updated rfl (Collection.at_insert hc hn hk)
        (Register.beside_put_entry.trans Register.beside_put_root), hp.bind (.store hb _ _)⟩

/-- `APPEND` adds an element at the end of a list, and refuses a map. -/
theorem acts_append (hn : c.size < ceiling) (x : Exec σ Unit) (p : Program)
    (hr : l[0].root? = some t) (hv : m.value? (h.contents m.contract) l[1] = some v) :
    Acts R (execute b .append x p) m l 0 h t c
      (l[1].price (h.contents m.contract) + c.updatePrice (.append v)) (.update (.append v)) := by
  refine .free_after (.root (i := 0) hr) (.after (.source (i := 1) hb hv) ?_)
  have hl := root_comes (l := l) (j := 2) hb hc
  cases c with
  | list s =>
    refine .after hl ?_
    exact ⟨_, _, _, _, .updated rfl (Collection.at_push hc hn hc.toNat_length)
      (Register.beside_put_entry.trans Register.beside_put_root),
      .bind (.store hb _ _) (.store hb _ _)⟩
  | map f => exact ⟨_, _, _, _, .failed rfl, hl.bind_free (.throw _)⟩

/-- `SDEL` removes the last element of a list, and no other one. In a map it removes an entry if
    there is one. -/
theorem acts_sdel (x : Exec σ Unit) (p : Program) (hr : l[0].root? = some t)
    (hk : m.key? (h.contents m.contract) l[1] = some k) :
    Acts R (execute b .sdel x p) m l 0 h t c
      (l[1].price (h.contents m.contract) + c.updatePrice (.delete k)) (.update (.delete k)) := by
  refine .free_after (.root (i := 0) hr) (.after (.key (i := 1) hb hk) ?_)
  have hx := container_comes (l := l) (j := 2) hb hc .sdel
  have hu : Comes R (unstore b t k) (m.taking l 2) h 0 (.ok ()) (m.taking l 2)
      (h.remove ⟨m.contract, .entry t k⟩) := .unstore hb t k
  cases c with
  | list s =>
    have hs := hc.toNat_length
    refine .after hx ?_
    simp only [Collection.container, Collection.not_last_iff hs]
    by_cases hk : 0 < s.length ∧ k.toNat = s.length - 1
    · rw [if_pos hk, if_neg (not_not_intro hk)]
      exact ⟨_, _, _, _, .updated (if_pos hk) (Collection.at_pop hc (by omega))
        (Register.beside_remove_entry.trans Register.beside_put_root),
        hu.free_bind (.store hb _ _)⟩
    · rw [if_neg hk, if_pos hk]
      exact ⟨_, _, _, _, .failed (if_neg hk), .bind_error (.throw _)⟩
  | map f =>
    refine .after hx (.after (entry_comes hb hc k) ?_)
    dsimp only [Collection.get?]
    by_cases hk : k ∈ f
    · rw [if_pos hk, if_pos (by simpa using hk)]
      exact ⟨_, _, _, _, .updated rfl (Collection.at_erase hc hk)
        (Register.beside_remove_entry.trans Register.beside_put_root),
        hu.free_bind (.store hb _ _)⟩
    · -- There is nothing to remove.
      rw [if_neg hk, if_neg (by simpa using hk)]
      refine ⟨_, _, _, _, .updated rfl ?_ (fun _ _ _ => rfl), .pure _⟩
      rw [Collection.erase_of_not_mem hk]
      exact hc

omit hc in
/-- `SERASE` leaves nothing of a slot, whatever has been there. -/
theorem acts_serase (x : Exec σ Unit) (p : Program) (hr : l[0].root? = some t) :
    Acts R (execute b .serase x p) m l 0 h t c 0 (.update .erase) := by
  refine .free_after (.root (i := 0) hr) ⟨_, _, _, _, .updated (Collection.update_erase c) ?_
    Register.beside_removeSlot, .erase hb t⟩
  intro y hy
  rw [Register.contents_removeSlot, if_pos ⟨rfl, hy⟩]

/-- An instruction that is an access makes it. -/
theorem acts_execute (hn : c.size < ceiling) {o : Opcode}
    (ha : m.Accesses (h.contents m.contract) t o l n a) (x : Exec σ Unit) (p : Program) :
    Acts R (execute b o x p) m l 0 h t c (n + c.price a) a := by
  cases ha with
  | sload hd hr hk => exact acts_sload hb hc x p hd hr hk
  | present hd hr hk => exact acts_present hb hc x p hd hr hk
  | len hd hr => exact (acts_len hb hc x p hd hr).cast (Nat.zero_add _).symm
  | sstore hr hk hv =>
    refine .free_after (.root (i := 0) hr) (.cast ?_ (Nat.add_assoc ..).symm)
    refine .after (.key (i := 1) hb hk) (.after (.source (i := 2) hb hv) ?_)
    exact acts_storeEntry hb hc hn _ _ _
  | storeref hv hw =>
    refine .cast ?_ (Nat.add_assoc ..).symm
    refine .after (.source (i := 0) hb hv) (.after (.source (i := 1) hb hw) ?_)
    exact acts_storeEntry hb hc hn _ _ _
  | append hr hv => exact acts_append hb hc hn x p hr hv
  | sdel hr hk => exact acts_sdel hb hc x p hr hk
  | serase hr =>
    refine (acts_serase hb x p hr).cast ?_
    cases c <;> rfl

end Accesses

/-- A container that is intact, and not of the greatest length, stands for a list or a finite map.
    A turn that is an access to it takes the operands of the instruction and makes this access to
    the collection, if it has the credits for it: an answer goes to its slot of the active frame,
    an update leaves the container of the collection after it, and all other slots of storage are
    as before; what is refused or fails aborts, and storage is as before. With fewer credits than
    that, it runs out of them. -/
theorem turn_accesses (hb : b.Shows R) {s : σ} (hs : R s h) (hm : m.constantOnly = false)
    (ht : Intact (h.contents m.contract) t) (hv : h.contents m.contract (.root t) = some v)
    (hc : v.isContainer) (hf : v.isFull = false) :
    ∃ c : Collection, c.At (h.contents m.contract) t ∧ c.root = v ∧
      ∀ o l n a, m.instruction? = some (o, l) → m.Accesses (h.contents m.contract) t o l n a →
        (o.cost.toNat + (n + c.price a) ≤ m.credits.remaining.toNat → ∃ r m' h' k j s',
          m.fetched.Accessed h t c a r m' h' ∧ R s' h' ∧
            turn b m s = ((r, { m'.ended r with credits := k, operands := ⟨l, j⟩ }), s')) ∧
        (m.credits.remaining.toNat < o.cost.toNat + (n + c.price a) →
          Short (turn b m s).1.1) := by
  obtain ⟨c, hca, rfl⟩ := Collection.exists_at ht hv hc
  refine ⟨c, hca, rfl, fun o l n a hi ha => ?_⟩
  obtain ⟨p, hp⟩ := Comes.turn (b := b) (R := R) (h := h) hi
  obtain ⟨r, m', h', j, ha, hx⟩ :=
    acts_execute (m := m.fetched) hb hca (hca.size_lt hf) ha.fetched (run b) p
  have ht := hp _ _ _ _ (.performed hm hx)
  refine ⟨fun hk => ?_, ht.short hs⟩
  obtain ⟨k, s', he, hs', _⟩ := ht.ends hs hk
  refine ⟨r, m', h', k, j, s', ha, hs', ?_⟩
  rw [he]
  cases r <;> rfl

/-- A machine that is about to store 6 in a map, under the key 8. -/
def storing : Machine :=
  (((Machine.new ⟨7⟩ false (fun _ => none) 0).load
    ⟨#[], #[.of .sstore [.persistent 0, .imm 8, .imm 6]], #[⟨"main", 0, 1, 0, true⟩], #[]⟩).begin
      (.index 0) [] 1000).2

/-- An entry is stored in the map that a call has made. -/
theorem turn_accesses_sample :
    let l := (Call.sample.execute Ledger.backend Call.sampleProgram (fun _ => none) .usual .empty).2
    let x := turn Ledger.backend storing l
    ∃ f : Std.ExtTreeMap Key Value compare, (Collection.map f).At (l.get? ⟨7⟩) 0 ∧ x.1.1 = .ok () ∧
      (Collection.map (f.insert 8 (.ofWord64 6))).At (x.2.get? ⟨7⟩) 0 := by
  intro l x
  have hn : ∀ e ∈ Call.sample.requests Call.sampleProgram (fun _ => none) .empty,
      e.fills = false := by decide +kernel
  have hl : l.Called := .call _ _ _ _ .empty fun _ => hn
  obtain ⟨h, hs, hh, _⟩ := hl.shows
  have hm : storing.contract = ⟨7⟩ := by decide +kernel
  have hg {k : Ledger} {g : Register} (hk : k.Shows g) :
      g.contents storing.contract = k.get? ⟨7⟩ := by
    rw [hm]
    exact funext fun y => (hk.get? ⟨7⟩ y).symm
  have hv : h.contents storing.contract (.root 0) = some (.map 1) := by
    rw [hg hs]
    decide +kernel
  obtain ⟨c, hc, hr, ha⟩ := turn_accesses Ledger.backend_shows hs (by decide +kernel) (hh _ 0) hv
    rfl rfl
  cases c with
  | list => cases hr
  | map f =>
  have hf : f[(8 : Key)]? = none := by
    rw [← show _ = f[(8 : Key)]? from hc.entries 8, hg hs]
    decide +kernel
  have hk : (8 : Key) ∉ f := by simpa using hf
  have hp : (Collection.map f).price (.update (.store 8 (.ofWord64 6))) = 51 := by
    simp only [Collection.price, Collection.updatePrice, hf, if_neg hk]
    rfl
  have hi : storing.Accesses (h.contents storing.contract) 0 .sstore
      #v[.persistent 0, .imm 8, .imm 6] 0 (.update (.store 8 (.ofWord64 6))) := .sstore rfl rfl rfl
  obtain ⟨r, m', g, k, j, s', ht, hs', he⟩ := (ha _ _ _ _ (by decide +kernel) hi).1 (by
    rw [hp]
    decide +kernel)
  refine ⟨f, hg hs ▸ hc, ?_⟩
  cases ht with
  | updated hu hl _ =>
    cases hu
    rw [show x = _ from he, ← hg hs']
    exact ⟨rfl, hl⟩
  | failed hu => cases hu

end Exec

end CreditMachine
