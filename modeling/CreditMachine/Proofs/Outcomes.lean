import CreditMachine.Proofs.Containers
import CreditMachine.Proofs.Inversion

/-!
# What executions come to

What an execution over a storage that shows a register comes to, and what it costs
(`Exec.Comes`): with as many credits as that, it ends with a certain result, machine and
register, and with fewer it runs out of them. So its price is exact. Executions are followed
from the left, through `Exec.Comes.bind`, and their prices are added up.

In particular this is told of operands (`Exec.Comes.source`, `Exec.Comes.key`), of a result that
is written to the stack (`Exec.Comes.write`), and of a turn as a whole (`Exec.Comes.turn`).
-/

namespace CreditMachine

/-- The price of reading or writing a value. -/
def Value.price (v : Value) : Nat := (clamp v.size).toNat

/-- The price of reading a cell. -/
def cellPrice : Option Value → Nat
  | none => 0
  | some v => v.price

namespace Machine

variable (m : Machine)

/-- The machine has fetched an instruction. -/
def fetched : Machine := { m with offset := m.next, next := m.next + 1 }

/-- Of the operands `l`, the machine has taken the first `i`. -/
def taking (l : Vector Operand 3) (i : Nat) : Machine := { m with operands := ⟨l, i⟩ }

/-- The machine has ended a turn that comes to `r`. -/
def ended : Except Abort Unit → Machine
  | .ok _ => m
  | .error _ => { m with status := .aborted }

/-- The slot `i` of the active frame holds `v`. -/
def put (i : Nat) (v : Value) : Machine :=
  match m.frames.head? with
  | none => m
  | some f => { m with memory.stack := m.memory.stack.setIfInBounds (f.base + i) v }

/-- A slot is not kept where operands are. -/
theorem put_taking (i : Nat) (v : Value) (l : Vector Operand 3) (j : Nat) :
    (m.taking l j).put i v = (m.put i v).taking l j := by
  rw [put, put, show (m.taking l j).frames = m.frames from rfl]
  cases m.frames.head? <;> rfl

/-- The slot of the active frame that an operand names. -/
def local? : Operand → Option Nat
  | .addr a =>
    match Region.ofAddress? a with
    | some (.stack i) => if (m.stackValue i).isSome then some i else none
    | _ => none
  | _ => none

variable (g : Cell → Option Value)

/-- The value of an operand, where the cells of the contract hold `g`. -/
def value? : Operand → Option Value
  | .none => none
  | .imm n => some (.ofWord64 n)
  | .addr a =>
    match Region.ofAddress? a with
    | some (.constant i) => m.memory.constants[i]?
    | some (.stack i) => m.stackValue i
    | some (.persistent s) => some ((g (.root s)).getD .nil)
    | none => none

/-- The value of an operand as a key. -/
def key? (x : Operand) : Option Key :=
  match m.value? g x with
  | some (.int n) => if n.toNat ≤ ceiling then some (UInt64.ofNat n.toNat) else none
  | _ => none

end Machine

/-- The slot whose root an operand names. -/
def Operand.root? : Operand → Option Slot
  | .addr a =>
    match Region.ofAddress? a with
    | some (.persistent s) => some s
    | _ => .none
  | _ => .none

/-- The price of the value of an operand, where the cells of the contract hold `g`. -/
def Operand.price (g : Cell → Option Value) (x : Operand) : Nat :=
  match x.root? with
  | some s => cellPrice (g (.root s))
  | .none => 0

namespace Exec

variable {σ α β : Type}

/-- An execution has run out of credits. -/
def Short (r : Except Abort α) : Prop := ∃ i j k, r = .error (.outOfCredits i j k)

/-- What lacks the credits at once goes no further. -/
theorem Short.bind {x : Exec σ α} {m : Machine} {s : σ} (hx : Short (x m s).1.1)
    (f : α → Exec σ β) : Short ((x >>= f) m s).1.1 := by
  obtain ⟨i, j, l, he⟩ := hx
  rw [bind_apply]
  generalize x m s = a at he
  obtain ⟨⟨_, _⟩, _⟩ := a
  cases he
  exact ⟨i, j, l, rfl⟩

/-- A mark does not hide that credits were lacking. -/
theorem Short.marked {x : Exec σ Unit} {m : Machine} {s : σ} (hx : Short (x m s).1.1) :
    Short (marked x m s).1.1 := by
  obtain ⟨i, j, l, he⟩ := hx
  rw [marked_apply]
  generalize x m s = a at he
  obtain ⟨⟨_, _⟩, _⟩ := a
  cases he
  exact ⟨i, j, l, rfl⟩

/-- Executed on the machine `m`, with some credits, over a storage that shows `h`, `x` comes
    to `r`, the machine `m'` and the register `h'`, and spends `n` credits; with fewer it runs
    out of them. -/
structure Comes (R : σ → Register → Prop) (x : Exec σ α) (m : Machine) (h : Register) (n : Nat)
    (r : Except Abort α) (m' : Machine) (h' : Register) : Prop where
  ends : ∀ {k s}, R s h → n ≤ k.remaining.toNat → ∃ k' s',
    x { m with credits := k } s = ((r, { m' with credits := k' }), s') ∧ R s' h' ∧
      k'.remaining.toNat = k.remaining.toNat - n
  short : ∀ {k s}, R s h → k.remaining.toNat < n → Short (x { m with credits := k } s).1.1

namespace Comes

variable {R : σ → Register → Prop} {x : Exec σ α} {f : α → Exec σ β} {m m₁ m' : Machine}
  {h h₁ h' : Register} {n n' : Nat} {v : α} {r : Except Abort α} {e : Abort}

/-- What is free and looks at no credits. -/
theorem free (hx : ∀ k s, x { m with credits := k } s = ((r, { m' with credits := k }), s)) :
    Comes R x m h 0 r m' h where
  ends {k s} hs _ := ⟨k, s, hx k s, hs, rfl⟩
  short _ hn := absurd hn (Nat.not_lt_zero _)

theorem pure (v : α) : Comes R (pure v) m h 0 (.ok v) m h := free fun _ _ => rfl

theorem throw (e : Abort) : Comes R (throw e : Exec σ α) m h 0 (.error e) m h :=
  free fun _ _ => rfl

/-- One part goes on where the other one came to, and both are to be paid for. -/
theorem bind {r : Except Abort β} (hx : Comes R x m h n (.ok v) m₁ h₁)
    (hf : Comes R (f v) m₁ h₁ n' r m' h') : Comes R (x >>= f) m h (n + n') r m' h' where
  ends {k s} hs hn := by
    obtain ⟨k₁, s₁, he, hs₁, hk⟩ := hx.ends (k := k) hs (by omega)
    obtain ⟨k', s', he', hs', hk'⟩ := hf.ends (k := k₁) hs₁ (by omega)
    exact ⟨k', s', by rw [bind_apply, he]; exact he', hs', by omega⟩
  short {k s} hs hn := by
    by_cases hl : k.remaining.toNat < n
    · exact (hx.short hs hl).bind f
    · obtain ⟨k₁, s₁, he, hs₁, hk⟩ := hx.ends hs (Nat.not_lt.1 hl)
      rw [bind_apply, he]
      exact hf.short hs₁ (by omega)

/-- What is free adds nothing to the price. -/
theorem free_bind {r : Except Abort β} (hx : Comes R x m h 0 (.ok v) m₁ h₁)
    (hf : Comes R (f v) m₁ h₁ n r m' h') : Comes R (x >>= f) m h n r m' h' :=
  Nat.zero_add n ▸ hx.bind hf

/-- What comes last is free. -/
theorem bind_free {r : Except Abort β} (hx : Comes R x m h n (.ok v) m₁ h₁)
    (hf : Comes R (f v) m₁ h₁ 0 r m' h') : Comes R (x >>= f) m h n r m' h' :=
  hx.bind hf

/-- After an abort, nothing is executed. -/
theorem bind_error (hx : Comes R x m h n (.error e) m' h') :
    Comes R (x >>= f) m h n (.error e) m' h' where
  ends {k s} hs hn := by
    obtain ⟨k', s', he, hs', hk⟩ := hx.ends hs hn
    exact ⟨k', s', by rw [bind_apply, he], hs', hk⟩
  short hs hn := (hx.short hs hn).bind f

theorem cast (hx : Comes R x m h n r m' h') (hn : n = n') : Comes R x m h n' r m' h' := hn ▸ hx

/-- A machine sees what it is, but for its credits. -/
theorem get {f : Machine → Exec σ α} (hf : ∀ k, Comes R (f { m with credits := k }) m h n r m' h') :
    Comes R (do f (← get)) m h n r m' h' where
  ends {k _} := (hf k).ends
  short {k _} := (hf k).short

theorem check (r : Except Abort α) : Comes R (check r) m h 0 r m h := free fun _ _ => rfl

theorem charge (c : Category) (n : UInt64) :
    Comes R (charge c n) m h n.toNat (.ok ()) m h where
  ends {k s} hs hn := by
    refine ⟨{ k with used := k.used + n, profile := k.profile.add c n }, s, ?_, hs, ?_⟩
    · rw [charge_apply, Credits.charge, if_neg (by rwa [UInt64.lt_iff_toNat_lt, Nat.not_lt])]
    · have hr : k.budget - (k.used + n) = k.remaining - n := by
        rw [Credits.remaining]
        grind
      rw [Credits.remaining, hr, UInt64.toNat_sub_of_le _ _ (UInt64.le_iff_toNat_le.2 hn)]
  short {k s} _ hn := by
    rw [charge_apply, Credits.charge, if_pos (UInt64.lt_iff_toNat_lt.2 hn)]
    exact ⟨_, _, _, rfl⟩

theorem guard (hm : m.constantOnly = false) (o : Opcode) :
    Comes R (guard o) m h 0 (.ok ()) m h :=
  free fun k s => by
    rw [Exec.guard, get_apply]
    dsimp only
    rw [hm]
    rfl

/-! ### Storage -/

section Storage

variable {b : Backend σ} (hb : b.Shows R)

include hb

/-- A request whose answer is certain. -/
theorem ask {r : Request} {a : r.Answer} (ha : ∀ a', h.Answers r a' → a' = a) :
    Comes R (ask b r) m h 0 (.ok a) m (h.after r) where
  ends {k s} hs _ := by
    obtain ⟨a', t, he, ha', ht⟩ := hb.reply r hs
    obtain rfl := ha a' ha'
    exact ⟨k, t, by rw [ask_apply, he], ht, rfl⟩
  short _ hn := absurd hn (Nat.not_lt_zero _)

theorem load (y : Cell) : Comes R (load b y) m h (cellPrice (h.contents m.contract y))
    (.ok (h.contents m.contract y)) m h := by
  have ha (k : Credits) : Comes R (Exec.ask b (.read m.contract y)) m h 0
      (.ok (h.contents m.contract y)) m h := ask hb fun _ ha => ha
  refine get fun k => free_bind (ha k) ?_
  dsimp only
  cases h.contents m.contract y with
  | none => exact pure _
  | some v =>
    refine bind_free (charge _ _) ?_
    exact pure _

theorem store (y : Cell) (v : Value) :
    Comes R (store b y v) m h v.price (.ok ()) m (h.put ⟨m.contract, y⟩ v) :=
  bind_free (charge _ _) (get fun _ => ask hb fun _ _ => rfl)

theorem unstore (t : Slot) (j : Key) :
    Comes R (unstore b t j) m h 0 (.ok ()) m (h.remove ⟨m.contract, .entry t j⟩) :=
  get fun _ => ask hb fun _ _ => rfl

theorem erase (t : Slot) :
    Comes R (erase b t) m h 0 (.ok ()) m (h.removeSlot ⟨m.contract, .root t⟩) :=
  get fun _ => ask hb fun _ _ => rfl

end Storage

/-! ### Operands -/

section Operands

variable {o : Opcode} {l : Vector Operand 3} {i : Fin 3} {j : Nat} {t : Slot}

/-- The buffer is filled, whatever it has held. -/
theorem fill (l : Vector Operand 3) : Comes R (fill l) m h 0 (.ok ()) (m.taking l 0) h :=
  free fun _ _ => rfl

/-- One operand is taken after the other. -/
theorem next (l : Vector Operand 3) (i : Fin 3) : Comes R (onOperands Operands.next) (m.taking l i)
    h 0 (.ok (i.val, l.get i)) (m.taking l (i + 1)) h :=
  free fun k s => by
    have hi : (⟨l, i.val⟩ : Operands).next.1 = (i.val, l.get i) := by
      rw [Operands.next, Vector.getElem?_eq_getElem i.isLt]
      rfl
    rw [onOperands_next_apply, ← hi]
    rfl

/-- A destination is a slot of the active frame. -/
theorem destination (hj : m.local? (l.get i) = some j) : ∃ a,
    Region.ofAddress? a = some (.stack j) ∧ (m.stackValue j).isSome ∧
      Comes R (destination o) (m.taking l i) h 0 (.ok a) (m.taking l (i + 1)) h := by
  have hn := next (R := R) (m := m) (h := h) l i
  generalize l.get i = x at hj hn
  cases x with
  | addr a =>
    rw [Machine.local?] at hj
    split at hj
    · next hr =>
      split at hj
      · next hv =>
        cases hj
        exact ⟨a, hr, hv, free_bind hn (pure a)⟩
      · cases hj
    · cases hj
  | _ => cases hj

theorem resolve {a : UInt64} {q : Region} (ha : Region.ofAddress? a = some q) :
    Comes R (resolve a) m h 0 (.ok q) m h := by
  rw [Exec.resolve.eq_def, ha]
  exact pure q

theorem root (ht : (l.get i).root? = some t) :
    Comes R (root o) (m.taking l i) h 0 (.ok t) (m.taking l (i + 1)) h := by
  have hn := next (R := R) (m := m) (h := h) l i
  generalize l.get i = x at ht hn
  cases x with
  | addr a =>
    rw [Operand.root?] at ht
    split at ht
    · next hr =>
      cases ht
      refine free_bind hn (free_bind (resolve hr) ?_)
      exact pure _
    · cases ht
  | _ => cases ht

theorem stackIndex {f : Frame} (hf : m.frames.head? = some f) (hj : j < f.size) (a : UInt64) :
    Comes R (stackIndex j a) m h 0 (.ok (f.base + j)) m h :=
  free fun k s => by
    rw [Exec.stackIndex, get_apply]
    dsimp only
    rw [hf]
    dsimp only
    rw [if_neg (Nat.not_le.2 hj)]
    rfl

/-- A result goes to a slot of the active frame. -/
theorem write (b : Backend σ) {a : UInt64} (ha : Region.ofAddress? a = some (.stack j))
    (hj : (m.stackValue j).isSome) (v : Value) :
    Comes R (write b o a v) m h 0 (.ok ()) (m.put j v) h := by
  obtain ⟨w, hw⟩ := Option.isSome_iff_exists.1 hj
  obtain ⟨f, hf, hs, hi⟩ := Machine.stackValue_ok hw
  have hb : f.base + j < m.memory.stack.size := (Array.getElem?_eq_some_iff.1 hi).1
  refine free_bind (resolve ha) ?_
  refine free_bind (stackIndex hf hs a) ?_
  rw [Machine.put, hf]
  exact free fun k s => by rw [setSlot_apply, Memory.set, if_pos hb]

section Sources

variable {b : Backend σ} (hb : b.Shows R)

include hb

/-- A value is read from wherever it is, and paid for if it is stored. -/
theorem read {a : UInt64} {v : Value}
    (hv : m.value? (h.contents m.contract) (.addr a) = some v) :
    Comes R (read b a) m h ((Operand.addr a).price (h.contents m.contract)) (.ok v) m h := by
  rw [Machine.value?] at hv
  rw [Operand.price, Operand.root?]
  split at hv
  · next i hr =>
    rw [hr]
    refine free_bind (resolve hr) (get fun k => ?_)
    dsimp only
    rw [Memory.constant, hv]
    exact check _
  · next i hr =>
    rw [hr]
    obtain ⟨f, hf, hi, hs⟩ := Machine.stackValue_ok hv
    refine free_bind (resolve hr) (free_bind (stackIndex hf hi a) (get fun k => ?_))
    dsimp only
    rw [Memory.slot, hs]
    exact check _
  · next t hr =>
    cases hv
    rw [hr]
    refine free_bind (resolve hr) (bind_free (load hb _) ?_)
    exact pure _
  · cases hv

/-- An operand comes to its value, at its price. -/
theorem source {v : Value} (hv : m.value? (h.contents m.contract) (l.get i) = some v) :
    Comes R (source b o) (m.taking l i) h ((l.get i).price (h.contents m.contract)) (.ok v)
      (m.taking l (i + 1)) h := by
  have hn := next (R := R) (m := m) (h := h) l i
  generalize l.get i = x at hv hn ⊢
  cases x with
  | none => cases hv
  | imm n =>
    cases hv
    exact free_bind hn (pure _)
  | addr a => exact free_bind hn (read (m := m.taking l (i + 1)) hb hv)

/-- A number that is no greater than the greatest word is a key. -/
theorem key {j : Key} (hj : m.key? (h.contents m.contract) (l.get i) = some j) :
    Comes R (key b o) (m.taking l i) h ((l.get i).price (h.contents m.contract)) (.ok j)
      (m.taking l (i + 1)) h := by
  rw [Machine.key?] at hj
  split at hj
  · next n hv =>
    split at hj
    · next hn =>
      cases hj
      refine bind_free (source hb hv) (free_bind (pure n) ?_)
      rw [if_neg (Nat.not_lt.2 hn)]
      exact pure _
    · cases hj
  · cases hj

/-- An operand comes to the key that its value makes, at its price. -/
theorem optionalKey {j : Key} (hj : m.key? (h.contents m.contract) (l.get i) = some j) :
    Comes R (optionalKey b o) (m.taking l i) h ((l.get i).price (h.contents m.contract))
      (.ok (some j)) (m.taking l (i + 1)) h := by
  have hs : Comes R (onOperands Operands.skip) (m.taking l i) h 0 (.ok false) (m.taking l i) h :=
    free fun k s => by
      have hi : (⟨l, i.val⟩ : Operands).skip = (false, ⟨l, i.val⟩) := by
        rw [Operands.skip, if_neg]
        rw [Vector.getElem?_eq_getElem i.isLt, Option.some_inj]
        intro (hx : l.get i = .none)
        rw [hx] at hj
        cases hj
      rw [onOperands_apply]
      dsimp only [Machine.taking]
      rw [hi]
  exact free_bind hs (bind_free (key hb hj) (pure _))

end Sources

/-! ### Turns -/

/-- The next instruction is fetched, and charged. -/
theorem fetch (hi : m.instruction? = some (o, l)) :
    ∃ p, Comes R fetch m h o.cost.toNat (.ok (p, o, l)) m.fetched h := by
  simp only [Machine.instruction?, Option.bind_eq_bind, Option.bind_eq_some_iff, Option.pure_def,
    Option.some.injEq, Prod.mk.injEq] at hi
  obtain ⟨p, hp, d, hd, _, ho, rfl, rfl⟩ := hi
  have hm : Comes R (modify fun m => { m with offset := m.next, next := m.next + 1 }) m h 0
      (.ok ()) m.fetched h := free fun _ _ => rfl
  refine ⟨p, get fun k => ?_⟩
  dsimp only
  rw [hp]
  dsimp only
  rw [hd]
  refine free_bind hm ?_
  rw [ho]
  refine bind_free (charge _ _) ?_
  exact pure _

/-- What goes on has no mark; what aborts has that of the instruction. -/
theorem marked {x : Exec σ Unit} {r : Except Abort Unit} (hx : Comes R x m h n r m' h') :
    Comes R (marked x) m h n r (m'.ended r) h' where
  ends {k s} hs hn := by
    obtain ⟨k', s', he, hs', hk⟩ := hx.ends hs hn
    refine ⟨k', s', ?_, hs', hk⟩
    rw [marked_apply, he]
    cases r <;> rfl
  short hs hn := (hx.short hs hn).marked

/-- An instruction is executed with all its operands in the buffer. -/
theorem performed {b : Backend σ} {x : Exec σ Unit} {p : Program} {r : Except Abort Unit}
    (hm : m.constantOnly = false)
    (hx : Comes R (execute b o x p) (m.taking l 0) h n r m' h') :
    Comes R (perform b x (p, o, l)) m h n r m' h' := by
  have hf : Comes R (do Exec.fill l; execute b o x p) m h n r m' h' := free_bind (fill l) hx
  rw [perform]
  dsimp only
  split
  · exact free_bind (guard hm o) hf
  · exact hf

/-- A turn performs the next instruction. -/
theorem turn {b : Backend σ} (hi : m.instruction? = some (o, l)) :
    ∃ p, ∀ n r m' h', Comes R (perform b (run b) (p, o, l)) m.fetched h n r m' h' →
      Comes R (turn b) m h (o.cost.toNat + n) r (m'.ended r) h' := by
  obtain ⟨p, hf⟩ := fetch hi
  refine ⟨p, fun n r m' h' hp => ?_⟩
  rw [Exec.turn, step_eq]
  exact marked (bind hf hp)

end Operands

end Comes

end Exec

end CreditMachine
