import CreditMachine.Proofs.Conditions
import CreditMachine.Proofs.Inversion

/-!
# The frame discipline

The frames of a machine that executes, from the outermost one on, lie one after the other on
its stack, and together they are the stack; the result of each goes to a slot of the one
before; and there are never more calls than may be nested (`Machine.Framed`). Programs are
not trusted to bring this about: the sizes of frames, the numbers of arguments and the
addresses that they are called with are as a program has them, and what does not fit is
refused before it is done.

On such machines what a call checks in advance (`Exec.window`) is enough: no slot that it
reads or writes afterwards is missing (`Exec.ends_call`, `Exec.ends_callContract`), and a
return does not fail (`Exec.ret_standing`).
-/

namespace CreditMachine

/-- The frame of a call lies on that of its caller, to which its result goes. -/
structure Frame.On (f g : Frame) : Prop where
  base : f.base = g.base + g.size
  resultAt : ∃ i, f.resultAt = some i ∧ g.base ≤ i ∧ i < g.base + g.size

namespace Machine

/-- The frames of a machine that executes. -/
structure Framed (m : Machine) : Prop where
  /-- There is an outermost frame, with the first slots of the stack. -/
  outermost : ∃ f, m.frames.getLast? = some f ∧ f.base = 0 ∧ f.resultAt = none
  calls : m.frames.IsChain Frame.On
  sizes : ∀ f ∈ m.frames, 1 ≤ f.size
  /-- The stack ends with the frame of the last call. -/
  active : ∃ f, m.frames.head? = some f ∧ m.memory.stack.size = f.base + f.size
  capacity : m.memory.stack.size ≤ stackCapacity
  /-- The calls of all machines, those that wait for this one included. -/
  depth : m.depth + m.frames.length ≤ maxDepth

variable {m m' : Machine}

/-- The values on the stack do not matter. -/
theorem Framed.congr (h : m.Framed) (hf : m'.frames = m.frames) (hd : m'.depth = m.depth)
    (hs : m'.memory.stack.size = m.memory.stack.size) : m'.Framed where
  outermost := hf ▸ h.outermost
  calls := hf ▸ h.calls
  sizes := hf ▸ h.sizes
  active := by rw [hf, hs]; exact h.active
  capacity := hs ▸ h.capacity
  depth := by rw [hf, hd]; exact h.depth

/-- A frame that has a place for its result is not the outermost one. -/
theorem Framed.pop (h : m.Framed) {f : Frame} {l : List Frame} (hm : m.frames = f :: l) {i : Nat}
    (hi : f.resultAt = some i) :
    ({ m with memory := m.memory.pop f.base, frames := l } : Machine).Framed ∧ i < f.base ∧
      f.base < m.memory.stack.size := by
  obtain ⟨o, c, z, a, s, d⟩ := h
  rw [hm] at o c z a d
  obtain ⟨f, hf, hn⟩ := a
  cases hf
  have hz := z f List.mem_cons_self
  rcases l with _ | ⟨g, l⟩
  · obtain ⟨_, ho, _, hr⟩ := o
    cases ho
    exact nomatch hi.symm.trans hr
  obtain ⟨⟨hb, j, hj, _, hl⟩, c⟩ := List.isChain_cons_cons.1 c
  rw [hi] at hj
  cases hj
  have hp : (m.memory.pop f.base).stack.size = g.base + g.size := by
    rw [Memory.pop]
    simp
    omega
  refine ⟨⟨by rwa [List.getLast?_cons_cons] at o, c, fun k hk => z k (.tail _ hk),
    ⟨g, rfl, hp⟩, ?_, ?_⟩, by omega, by omega⟩
  · rw [hp]
    omega
  · rw [List.length_cons] at d
    change m.depth + (g :: l).length ≤ maxDepth
    omega

/-- A frame is added at the end of the stack. Its result goes to the frame that was there. -/
theorem Framed.push (h : m.Framed) {f : Frame} (hm : m.frames.head? = some f) {k : Memory}
    {size i : Nat} (hs : 1 ≤ size) (hk : k.stack.size = f.base + f.size + size)
    (hc : k.stack.size ≤ stackCapacity) (hi : f.base ≤ i) (hl : i < f.base + f.size)
    (hd : m.depth + m.frames.length < maxDepth) (returnTo next : Nat) :
    ({ m with
      memory := k
      frames := ⟨f.base + f.size, size, returnTo, some i⟩ :: m.frames
      next := next } : Machine).Framed := by
  obtain ⟨l, hf⟩ : ∃ l, m.frames = f :: l := List.head?_eq_some_iff.1 hm
  refine ⟨?_, ?_, ?_, ⟨_, rfl, hk⟩, hc, ?_⟩
  · rw [hf, List.getLast?_cons_cons, ← hf]
    exact h.outermost
  · rw [hf, List.isChain_cons_cons, ← hf]
    exact ⟨⟨rfl, i, rfl, hi, hl⟩, h.calls⟩
  · rintro g (_ | ⟨_, hg⟩)
    · exact hs
    · exact h.sizes g hg
  · rw [List.length_cons]
    change m.depth + (m.frames.length + 1) ≤ maxDepth
    omega

/-- A machine that has begun has one frame. -/
theorem framed_begin (hm : m.memory.capacity = stackCapacity) (hd : m.depth < maxDepth) {e : Entry}
    {args : List Value} {n : UInt64} (h : m.begin e args n = (.ok (), m')) : m'.Framed := by
  rcases begin_cases hm e args n with ⟨_, ha, _⟩ | ⟨_, _, ha⟩ |
    ⟨p, t, k, k', _, ht, _, hk, hk', ha⟩ <;> rw [ha] at h <;> cases h
  obtain ⟨s, rfl, hs⟩ := passArgs_keeps hk'
  have ht := arity_lt_frame ht
  rcases push_cases hm 0 t.frame with ⟨_, _, he⟩ | ⟨hc, he⟩ <;> rw [he] at hk <;> cases hk
  have hs : s.size = 0 + t.frame := by
    rw [hs]
    simp
  refine ⟨⟨_, rfl, rfl, rfl⟩, List.IsChain.singleton _, ?_, ⟨_, rfl, hs⟩, hs ▸ hc, hd⟩
  intro f hf
  rw [List.mem_singleton] at hf
  subst hf
  change 1 ≤ t.frame
  omega

/-- A machine that executes, or has finished. -/
structure Standing (m : Machine) : Prop where
  program : m.program.isSome
  capacity : m.memory.capacity = stackCapacity
  framed : m.Framed

/-- Neither credits, nor the place that has been reached, nor operands make a machine fall. -/
theorem Standing.still (h : m.Standing) (credits : Credits) (offset next : Nat)
    (operands : Operands) (status : Status) :
    ({ m with credits, offset, next, operands, status } : Machine).Standing :=
  ⟨h.program, h.capacity, h.framed.congr rfl rfl rfl⟩

/-- A slot that is set is a slot of the same frame. -/
theorem Standing.set (h : m.Standing) {i : Nat} {v : Value} {a : UInt64} {k : Memory}
    (hk : m.memory.set i v a = .ok k) : ({ m with memory := k } : Machine).Standing := by
  obtain rfl := Memory.set_ok hk
  exact ⟨h.program, h.capacity, h.framed.congr rfl rfl (by simp)⟩

/-- The stack ends with the active frame. -/
theorem Standing.active (h : m.Standing) {f : Frame} (hf : m.frames.head? = some f) :
    m.memory.stack.size = f.base + f.size ∧ f.size ≤ stackCapacity := by
  obtain ⟨g, hg, hs⟩ := h.framed.active
  obtain rfl : f = g := Option.some.inj (hf.symm.trans hg)
  have hc := h.framed.capacity
  exact ⟨hs, by omega⟩

/-- A machine stands as soon as an execution has begun. -/
theorem standing_begin (hm : m.memory.capacity = stackCapacity) (hd : m.depth < maxDepth)
    {e : Entry} {args : List Value} {n : UInt64} (h : m.begin e args n = (.ok (), m')) :
    m'.Standing ∧ m'.status = .running := by
  refine ⟨⟨?_, ?_, framed_begin hm hd h⟩, ?_⟩ <;>
  rcases begin_cases hm e args n with ⟨_, ha, _⟩ | ⟨_, _, ha⟩ |
    ⟨p, t, k, k', hp, ht, _, hk, hk', ha⟩ <;> rw [ha] at h <;> cases h
  · rw [hp]
    rfl
  · obtain ⟨s, rfl, _⟩ := passArgs_keeps hk'
    rcases push_cases hm 0 t.frame with ⟨_, _, he⟩ | ⟨_, he⟩ <;> rw [he] at hk <;> cases hk
    exact hm
  · rfl

end Machine

/-! ### Slots of a call -/

/-- The slot of the stack that the address `a` names, if it and the next `n` slots are in the
    frame. -/
def Frame.window (f : Frame) (o : Opcode) (a n : UInt64) : Except Abort Nat :=
  match Region.ofAddress? a with
  | none => .error (.addressOutOfRange a)
  | some (.stack i) =>
    if f.size ≤ i + n.toNat then .error (.addressOutOfRange (addSat a n)) else .ok (f.base + i)
  | some _ => .error (.invalidOperand o.mnemonic 0 "a stack address")

/-- A window that is granted lies in the frame, with the base and all arguments. -/
theorem Frame.window_ok {f : Frame} {o : Opcode} {a n : UInt64} {i : Nat}
    (h : f.window o a n = .ok i) : f.base ≤ i ∧ i + n.toNat < f.base + f.size := by
  rw [window] at h
  split at h
  · cases h
  · split at h <;> cases h
    omega
  · cases h

/-- A window is refused by the instruction alone. -/
theorem Plain.window (f : Frame) (o : Opcode) (a n : UInt64) : Plain (f.window o a n) := by
  rw [Frame.window]
  split
  · exact .error rfl
  · split
    · exact .error rfl
    · exact .ok _
  · exact .error rfl

namespace Memory

variable {k : Memory} {i : Nat}

theorem slot_of_lt (h : i < k.stack.size) (a : UInt64) : ∃ v, k.slot i a = .ok v := by
  rw [slot, Array.getElem?_eq_getElem h]
  exact ⟨_, rfl⟩

theorem set_of_lt (h : i < k.stack.size) (v : Value) (a : UInt64) : ∃ l, k.set i v a = .ok l := by
  rw [set, if_pos h]
  exact ⟨_, rfl⟩

/-- Slots in a row can be read if the last of them is on the stack. -/
theorem slots_of_le {n : Nat} (h : i + n ≤ k.stack.size) (a : UInt64) :
    ∃ l, k.slots i a n = .ok l ∧ l.length = n := by
  induction n generalizing i with
  | zero => exact ⟨[], rfl, rfl⟩
  | succ n ih =>
    obtain ⟨v, hv⟩ := slot_of_lt (show i < k.stack.size by omega) a
    obtain ⟨l, hl, hn⟩ := ih (i := i + 1) (by omega)
    rw [slots, hv]
    change ∃ l', (do return v :: (← k.slots (i + 1) a n)) = .ok l' ∧ _
    rw [hl]
    exact ⟨v :: l, rfl, by rw [List.length_cons, hn]⟩

end Memory

namespace Exec

variable {σ : Type} {m : Machine} {f : Frame}

/-- Where a slot of the active frame is on the stack. Beyond the frame, there is none. -/
theorem stackIndex_apply (hm : m.frames.head? = some f) (i : Nat) (a : UInt64) (s : σ) :
    stackIndex i a m s =
      ((if f.size ≤ i then .error (.addressOutOfRange a) else .ok (f.base + i), m), s) := by
  rw [stackIndex, get_apply, hm]
  dsimp only
  split <;> rfl

/-- What the window of a call is depends on the active frame. -/
theorem window_apply (hm : m.frames.head? = some f) (hf : f.size ≤ stackCapacity) (o : Opcode)
    (a n : UInt64) (s : σ) : window o a n m s = ((f.window o a n, m), s) := by
  have hc : stackCapacity < ceiling := by decide
  rw [window, bind_apply, resolve, Frame.window]
  rcases Region.ofAddress? a with _ | (i | i | i)
  · rfl
  · rfl
  · change (if ceiling < i + n.toNat then throw (.addressOutOfRange (addSat a n)) else do
      let _ ← stackIndex (i + n.toNat) (addSat a n)
      stackIndex i a : Exec σ Nat) m s = ((if f.size ≤ i + n.toNat then
        .error (.addressOutOfRange (addSat a n)) else .ok (f.base + i), m), s)
    by_cases hl : f.size ≤ i + n.toNat
    · rw [if_pos hl]
      split
      · rfl
      · rw [bind_apply, stackIndex_apply hm, if_pos hl]
    · rw [if_neg hl, if_neg (by omega), bind_apply, stackIndex_apply hm, if_neg hl]
      dsimp only
      rw [stackIndex_apply hm, if_neg (by omega)]
  · rfl

theorem arguments_apply (i n : Nat) (m : Machine) (s : σ) :
    arguments i n m s = ((m.memory.slots (i + 1) stackBase n, m), s) := rfl

/-- No call goes deeper than the limit, counted over all machines. -/
theorem checkDepth_apply (m : Machine) (s : σ) :
    checkDepth m s = ((if maxDepth ≤ m.depth + m.frames.length then
      .error (.callDepthExceeded maxDepth) else .ok (), m), s) := by
  rw [checkDepth, get_apply]
  split <;> rfl

end Exec

/-! ### Calls and returns -/

/-- An abort of a machine that is running. If an address is out of range, then `W` holds. -/
structure Abort.Expected (W : Abort → Prop) (e : Abort) : Prop where
  running : e ≠ .notRunning
  outOfRange : ∀ a, e = .addressOutOfRange a → W e

/-- No instruction by itself finds that its machine is not running. -/
theorem Abort.ne_notRunning_of_isPlain {e : Abort} (he : e.isPlain) : e ≠ .notRunning := by
  rintro rfl
  cases he

/-- Whether an abort is for something else than frames and slots. -/
def Abort.isOther : Abort → Bool
  | .notRunning | .addressOutOfRange _ => false
  | _ => true

/-- Other aborts say nothing about frames and slots. -/
theorem Abort.expected_of_isOther {W : Abort → Prop} {e : Abort} (h : e.isOther) :
    e.Expected W where
  running := by
    rintro rfl
    cases h
  outOfRange := by
    rintro a rfl
    cases h

namespace Exec

open Abort

variable {σ : Type} {m : Machine} {f : Frame} {W : Abort → Prop}

theorem ne_of_plain {α : Type} {x : Except Abort α} (hx : Plain x) {e : Abort} (he : x = .error e) :
    e ≠ .notRunning :=
  ne_notRunning_of_isPlain (hx e he)

/-- A charge changes the credits, or there are too few of them. -/
theorem ends_charge (m : Machine) (c : Category) (n : UInt64) (s : σ) :
    Ends (fun _ k => ∃ j, k = { m with credits := j }) (Expected W) (charge c n m s) := by
  rw [charge_apply]
  cases hk : m.credits.charge c n with
  | ok k => exact .ok ⟨k, rfl⟩
  | error e =>
    rw [Credits.charge] at hk
    split at hk <;> cases hk
    exact .error (expected_of_isOther rfl)

/-- A value that is to name a contract is looked at, and nothing is changed. -/
theorem ends_address (o : Opcode) (v : Value) (m : Machine) (s : σ) :
    Ends (fun _ k => m = k) (Expected W) (address o v m s) := by
  unfold address
  cases v with
  | bytes l =>
    dsimp only
    cases Address.ofBytes? l with
    | some c => exact .ok rfl
    | none => exact .error (expected_of_isOther rfl)
  | _ => exact .error (expected_of_isOther rfl)

/-- A method is entered, or its frame does not fit. -/
theorem ends_enter (hm : m.Standing) (hf : m.frames.head? = some f) (d : Method) {i : Nat}
    (hi : f.base ≤ i) (hl : i < f.base + f.size) (hd : m.depth + m.frames.length < maxDepth)
    {args : List Value} (ha : args.length = d.arity.toNat) (s : σ) :
    Ends (fun _ => Machine.Standing) (Expected W) (enter d i args m s) := by
  rw [enter_apply, hf]
  dsimp only
  rcases Machine.push_cases hm.capacity (f.base + f.size) d.frame with ⟨_, _, hk⟩ | ⟨hc, hk⟩ <;>
    rw [hk]
  · exact .error (expected_of_isOther rfl)
  obtain ⟨hs, _⟩ := hm.active hf
  have hr : d.arity.toNat + 1 ≤ d.frame := Nat.le_max_right _ _
  generalize hw : m.memory.stack.take (f.base + f.size) ++ _ = w
  have hw : w.size = f.base + f.size + d.frame := by
    rw [← hw]
    simp
  have hp : f.base + f.size + 1 + args.length ≤ w.size := by omega
  obtain ⟨k, hk⟩ := Machine.passArgs_ok (k := { m.memory with stack := w }) hp
  obtain ⟨l, rfl, hz⟩ := Machine.passArgs_keeps hk
  have hz : l.size = f.base + f.size + d.frame := hz.trans hw
  dsimp only
  rw [hk]
  refine .ok ⟨hm.program, hm.capacity, ?_⟩
  exact hm.framed.push hf (by omega) hz (hz ▸ hc) hi hl hd m.next d.entry.toNat

/-- A call of a method. An address is out of range only if the window of the call is. -/
theorem ends_call (hm : m.Standing) (hf : m.frames.head? = some f) (o : Opcode) (p : Program)
    (a n j : UInt64) (s : σ) : Ends (fun _ => Machine.Standing)
      (Expected fun e => f.window o a j = .error e) (call o p a n j m s) := by
  rw [call_eq]
  rcases p.methods[n.toNat]? with _ | d
  · exact .error (expected_of_isOther rfl)
  dsimp only
  split
  · exact .error (expected_of_isOther rfl)
  next hj =>
  refine (ends_charge m _ _ s).bind fun _ => ?_
  rintro _ s ⟨c, rfl⟩
  -- A charge changes nothing that the rest depends on.
  have hm := hm.still c m.offset m.next m.operands m.status
  generalize hk : { m with credits := c } = k at hm
  have hf : k.frames.head? = some f := hk ▸ hf
  rw [bind_apply, checkDepth_apply]
  by_cases hd : maxDepth ≤ k.depth + k.frames.length
  · rw [if_pos hd]
    exact .error (expected_of_isOther rfl)
  rw [if_neg hd]
  dsimp only
  rw [bind_apply, window_apply hf (hm.active hf).2]
  cases hw : f.window o a j with
  | error e => exact .error ⟨ne_of_plain (Plain.window f o a j) hw, fun _ _ => rfl⟩
  | ok i =>
    obtain ⟨hi, hl⟩ := Frame.window_ok hw
    obtain ⟨hs, _⟩ := hm.active hf
    obtain ⟨args, ha, hn⟩ := Memory.slots_of_le (k := k.memory) (i := i + 1) (n := j.toNat)
      (by omega) stackBase
    dsimp only
    rw [bind_apply, arguments_apply, ha]
    refine ends_enter hm hf d hi (by omega) (by omega) ?_ s
    rw [hn, not_not.1 hj, UInt64.toNat_ofNat', Nat.mod_eq_of_lt]
    have := d.arity.toNat_lt
    omega

/-- What a call of another contract does before the other machine is called: it finds the slot
    of the base, the contract and its program, and the arguments. -/
def prepare (o : Opcode) (a k : UInt64) : Exec σ (Nat × Address × Program × List Value) := do
  let i ← window o a k
  let c ← address o (← slot i a)
  charge .callOverhead (mulSat argumentCost k)
  checkDepth
  match (← get).registry c with
  | none => throw (.unknownContract c)
  | some p => return (i, c, p, ← arguments i k.toNat)

/-- A call of another contract is prepared first, and only then is the other machine run. -/
theorem callContract_eq (o : Opcode) (x : Exec σ Unit) (a n k : UInt64) :
    callContract o x a n k = (do
      let r ← prepare o a k
      setSlot r.1 (← delegate x r.2.1 r.2.2.1 n r.2.2.2) a) := by
  simp only [callContract, prepare, bind_assoc]
  refine bind_congr fun i => bind_congr fun v => bind_congr fun c => ?_
  refine bind_congr fun _ => bind_congr fun _ => bind_congr fun m => ?_
  cases m.registry c with
  | none => rfl
  | some p => simp

/-- What is found is where the call is allowed to be. -/
theorem ends_prepare (hm : m.Standing) (hf : m.frames.head? = some f) (o : Opcode) (a j : UInt64)
    (s : σ) : Ends (fun r k => (∃ c, k = { m with credits := c }) ∧ f.window o a j = .ok r.1 ∧
        m.registry r.2.1 = some r.2.2.1 ∧ m.depth + m.frames.length < maxDepth)
      (Expected fun e => f.window o a j = .error e) (prepare o a j m s) := by
  obtain ⟨hs, hz⟩ := hm.active hf
  rw [prepare, bind_apply, window_apply hf hz]
  cases hw : f.window o a j with
  | error e => exact .error ⟨ne_of_plain (Plain.window f o a j) hw, fun _ _ => rfl⟩
  | ok i =>
  -- The window lies in the active frame, so neither its first slot nor the arguments can be
  -- missing.
  obtain ⟨hi, hl⟩ := Frame.window_ok hw
  obtain ⟨v, hv⟩ := Memory.slot_of_lt (k := m.memory) (i := i) (by omega) a
  obtain ⟨args, ha, _⟩ := Memory.slots_of_le (k := m.memory) (i := i + 1) (n := j.toNat)
    (by omega) stackBase
  dsimp only
  rw [bind_apply, slot_apply, hv]
  dsimp only
  refine (ends_address o v m s).bind fun c => ?_
  rintro _ s rfl
  refine (ends_charge m _ _ s).bind fun _ => ?_
  rintro _ s ⟨q, rfl⟩
  rw [bind_apply, checkDepth_apply]
  by_cases hd : maxDepth ≤ m.depth + m.frames.length
  · rw [if_pos hd]
    exact .error (expected_of_isOther rfl)
  rw [if_neg hd]
  dsimp only
  rw [get_apply]
  cases hp : m.registry c with
  | none => exact .error (expected_of_isOther rfl)
  | some p =>
    dsimp only
    rw [bind_apply, arguments_apply, ha]
    exact .ok ⟨⟨q, rfl⟩, rfl, hp, Nat.lt_of_not_le hd⟩

/-- However a nested execution is refused, the machine has a program, and arguments fit. -/
theorem expected_begin {m : Machine} {e : Entry} {args : List Value} {n : UInt64} {a : Abort}
    {g : Machine} (hm : m.memory.capacity = stackCapacity) (hp : m.program.isSome)
    (h : m.begin e args n = (.error a, g)) : Expected W a := by
  rcases Machine.begin_cases hm e args n with ⟨_, he, hr⟩ | ⟨_, _, he⟩ |
    ⟨_, _, _, _, _, _, _, _, _, he⟩ <;> rw [he] at h <;> cases h
  · rcases hr with ⟨hn, _⟩ | ⟨_, rfl⟩ | ⟨_, _, _, rfl⟩
    · rw [hn] at hp
      cases hp
    · exact expected_of_isOther rfl
    · exact expected_of_isOther rfl
  · exact expected_of_isOther rfl

/-- A call of another contract comes to a run of the machine `g`, on the storage `u`. -/
def Calls (o : Opcode) (a n k : UInt64) (m : Machine) (s : σ) (g : Machine) (u : σ) : Prop :=
  ∃ r m', prepare o a k m s = ((.ok r, m'), u) ∧
    (callee m' r.2.1 r.2.2.1).begin (.index n) r.2.2.2 m'.credits.remaining = (.ok (), g)

/-- A call of another contract depends on the one run that it comes to. -/
theorem callContract_congr {x y : Exec σ Unit} {o : Opcode} {a n k : UInt64} {s : σ}
    (h : ∀ g u, Calls o a n k m s g u → x g u = y g u) :
    callContract o x a n k m s = callContract o y a n k m s := by
  rw [callContract_eq, callContract_eq]
  refine bind_congr_at fun r m' u hr => ?_
  rw [bind_apply, bind_apply, delegate_congr_at fun g hg => h g u ⟨r, m', hr, hg⟩]

/-- The machine that is called is the same whatever the caller has been charged. -/
theorem Calls.begun (hm : m.Standing) {o : Opcode} {a n k : UInt64} {s u : σ} {g : Machine}
    (h : Calls o a n k m s g u) : ∃ c p args q, m.registry c = some p ∧
      m.depth + m.frames.length < maxDepth ∧
      (callee m c p).begin (.index n) args q = (.ok (), g) := by
  obtain ⟨⟨i, c, p, args⟩, m', hr, hg⟩ := h
  obtain ⟨f, hf, _⟩ := hm.framed.active
  have hp := ends_prepare hm hf o a k s
  rw [hr] at hp
  cases hp with
  | ok hp =>
    obtain ⟨⟨q, rfl⟩, _, hp, hd⟩ := hp
    exact ⟨c, p, args, q.remaining, hp, hd, hg⟩

/-- A call of another contract. If an address is out of range, then its window is, or else it
    is so in the run that the call comes to. -/
theorem ends_callContract (hm : m.Standing) (hf : m.frames.head? = some f) (o : Opcode)
    (a n j : UInt64) (s : σ) {x : Exec σ Unit} (hx : ∀ g u, Calls o a n j m s g u →
      Ends (fun _ _ => True) (· ≠ .notRunning) (x g u)) :
    Ends (fun _ => Machine.Standing) (Expected fun e => f.window o a j = .error e ∨
      ∃ g u, Calls o a n j m s g u ∧ (x g u).1.1 = .error e) (callContract o x a n j m s) := by
  rw [callContract_eq, bind_apply]
  have hp := ends_prepare hm hf o a j s
  cases hr : prepare o a j m s with
  | mk r t =>
  rw [hr] at hp
  cases hp with
  | error he => exact .error ⟨he.running, fun a ha => .inl (he.outOfRange a ha)⟩
  | @ok v _ _ hp =>
  obtain ⟨i, c, p, args⟩ := v
  obtain ⟨⟨q, rfl⟩, hw, -, -⟩ := hp
  obtain ⟨hs, _⟩ := hm.active hf
  obtain ⟨_, hl⟩ := Frame.window_ok hw
  dsimp only at hl ⊢
  rw [bind_apply, delegate_apply, begin_apply]
  cases hb : (callee { m with credits := q } c p).begin (.index n) args q.remaining with
  | mk r g =>
  rcases r with e | _
  · exact .error (expected_begin rfl rfl hb)
  have hg : Calls o a n j m s g t := ⟨_, _, hr, hb⟩
  have hx := hx g t hg
  dsimp only
  cases hy : x g t with
  | mk y u =>
  rw [hy] at hx
  cases hx with
  | error he => exact .error ⟨he, fun _ _ => .inr ⟨g, t, hg, by rw [hy]⟩⟩
  | @ok v k _ _ =>
    -- The stack is as it was.
    have hm := hm.still (q.absorb k.credits.used k.credits.profile) m.offset m.next m.operands
      m.status
    obtain ⟨w, hw⟩ := Memory.set_of_lt (k := m.memory) (i := i) (by omega)
      (k.result.getD .nil) a
    change Ends _ _ (setSlot i (k.result.getD .nil) a _ u)
    rw [setSlot_apply]
    dsimp only
    rw [hw]
    exact .ok (hm.set hw)

/-- A return never fails. -/
theorem ret_standing (hm : m.Standing) (s : σ) : ∃ k, ret m s = ((.ok (), k), s) ∧ k.Standing := by
  obtain ⟨f, hf, hs⟩ := hm.framed.active
  obtain ⟨l, hl⟩ : ∃ l, m.frames = f :: l := List.head?_eq_some_iff.1 hf
  rw [ret_apply, hl]
  dsimp only
  cases hi : f.resultAt with
  | none => exact ⟨_, rfl, hl ▸ hm.still m.credits m.offset m.next m.operands .finished⟩
  | some i =>
    obtain ⟨hp, hi, hb⟩ := hm.framed.pop hl hi
    have hk : ({ m with memory := m.memory.pop f.base, frames := l } : Machine).Standing :=
      ⟨hm.program, hm.capacity, hp⟩
    have hn : (m.memory.pop f.base).stack.size = f.base := by
      rw [Memory.pop]
      simp
      omega
    obtain ⟨v, hv⟩ := Memory.slot_of_lt (k := m.memory) hb stackBase
    obtain ⟨w, hw⟩ := Memory.set_of_lt (k := m.memory.pop f.base) (i := i) (by omega) v stackBase
    dsimp only
    rw [hv]
    dsimp only
    rw [hw]
    exact ⟨_, rfl, (hk.set hw).still m.credits m.offset f.returnTo m.operands m.status⟩

end Exec

end CreditMachine
