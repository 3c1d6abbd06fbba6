import CreditMachine.Proofs.Calls
import CreditMachine.Proofs.Conditions

/-!
# Calls are isolated

A method that is called has a frame of its own, at the end of the stack of its caller. Its slots
are nil, whatever was there before, but for the arguments (`Machine.entered_of_call`). What is
executed in this frame, and in the frames of further calls, leaves the slots below and the frames
of the caller as they are, turn by turn (`Machine.Inside`), until the frame returns: then the stack
ends where it did, and one of its slots has got the result (`Machine.Entered.returned`).

So a call changes nothing of its caller but the base (`Machine.call_isolated`), whether it is
executed in frames of the machine or on a machine of its own.
-/

namespace CreditMachine

/-! ### Slots of a new frame -/

namespace Memory

variable {k l : Memory}

/-- Slots that were read in a row are the values on the stack. -/
theorem slots_ok {i n : Nat} {a : UInt64} {vs : List Value} (h : k.slots i a n = .ok vs) :
    vs.length = n ∧ ∀ x < n, k.stack[i + x]? = vs[x]? := by
  induction n generalizing i vs with
  | zero =>
    cases h
    exact ⟨rfl, fun _ h => absurd h (Nat.not_lt_zero _)⟩
  | succ n ih =>
    rw [slots] at h
    cases hv : k.slot i a with
    | error e =>
      rw [hv] at h
      cases h
    | ok v =>
      cases hw : k.slots (i + 1) a n with
      | error e =>
        rw [hv, hw] at h
        cases h
      | ok w =>
        rw [hv, hw] at h
        cases h
        obtain ⟨hn, hx⟩ := ih hw
        refine ⟨congrArg (· + 1) hn, fun x h => ?_⟩
        cases x with
        | zero => exact slot_ok hv
        | succ x =>
          rw [List.getElem?_cons_succ, ← hx x (by omega)]
          congr 1
          omega

/-- A frame at the end of the stack adds slots that are nil. -/
theorem push_end (hk : k.capacity = stackCapacity) {size : Nat}
    (h : k.push k.stack.size size = .ok l) :
    l = { k with stack := k.stack ++ Array.replicate size .nil } := by
  rcases Machine.push_cases hk k.stack.size size with ⟨_, _, he⟩ | ⟨_, he⟩ <;> rw [he] at h <;>
    cases h
  simp

end Memory

namespace Machine

/-- Arguments are written from the slot `i` of the frame on, in order. -/
theorem passArgs_slots {base i : Nat} {args : List Value} {k l : Memory}
    (h : passArgs base i args k = .ok l) (x : Nat) :
    l.stack[base + x]? =
      if i ≤ x ∧ x < i + args.length then args[x - i]? else k.stack[base + x]? := by
  induction args generalizing i k with
  | nil =>
    cases h
    rw [if_neg (by simp)]
  | cons v args ih =>
    rw [passArgs, Memory.set] at h
    split at h
    · next hi =>
      rw [ih h, List.length_cons]
      dsimp only
      rw [Array.getElem?_setIfInBounds]
      by_cases hx : x = i
      · subst hx
        rw [if_neg (by omega), if_pos rfl, if_pos hi, if_pos (by omega), Nat.sub_self]
        rfl
      · rw [if_neg (by omega : base + i ≠ base + x)]
        by_cases hl : i ≤ x ∧ x < i + (args.length + 1)
        · obtain ⟨y, rfl⟩ : ∃ y, x = i + 1 + y := Nat.exists_eq_add_of_le (by omega)
          have hy : i + 1 + y - i = y + 1 := by omega
          rw [if_pos (by omega), if_pos hl, hy, List.getElem?_cons_succ, Nat.add_sub_cancel_left]
        · rw [if_neg (by omega), if_neg hl]
    · cases h

/-- The machine is about to return from its `n`th frame, the outermost one being the first. -/
def Returning (n : Nat) (m : Machine) : Prop :=
  m.frames.length = n ∧ m.instruction?.map Prod.fst = some .ret

instance (n : Nat) (m : Machine) : Decidable (m.Returning n) :=
  inferInstanceAs (Decidable (_ ∧ _))

/-! ### Frames above others -/

/-- The frame `g`, above `fs`, and maybe more frames above it, have no slots below `n`; nor do
    those above `g` return to such slots. -/
inductive Above (n : Nat) (g : Frame) (fs : List Frame) : List Frame → Prop
  | callee : n ≤ g.base → Above n g fs (g :: fs)
  | inner {f l} : n ≤ f.base → (∀ i, f.resultAt = some i → n ≤ i) → Above n g fs l →
    Above n g fs (f :: l)

/-- The machine executes in the frame `g`, or above it. The slots `a` of the stack are below. -/
structure Inside (a : Array Value) (g : Frame) (fs : List Frame) (k : Machine) : Prop where
  memory : ∃ l : Memory, l.capacity = stackCapacity ∧ k.memory = l.above a
  frames : Above a.size g fs k.frames

variable {a : Array Value} {g : Frame} {fs : List Frame} {k : Machine}

/-- Above a frame there is an active one, based no lower. -/
theorem Above.active {n : Nat} {l : List Frame} (h : Above n g fs l) :
    ∃ f l', l = f :: l' ∧ n ≤ f.base := by
  cases h with
  | callee h => exact ⟨_, _, rfl, h⟩
  | inner h _ _ => exact ⟨_, _, rfl, h⟩

/-- There are more frames above than there were below. -/
theorem Above.length {n : Nat} {l : List Frame} (h : Above n g fs l) : fs.length < l.length := by
  induction h with
  | callee => exact Nat.lt_succ_self _
  | inner _ _ _ ih => exact Nat.lt_succ_of_lt ih

namespace Inside

/-- Neither credits nor the place in the program nor the operands have to do with the frames. -/
theorem still (h : k.Inside a g fs) (credits : Credits) (offset next : Nat) (operands : Operands) :
    ({ k with credits, offset, next, operands } : Machine).Inside a g fs :=
  ⟨h.memory, h.frames⟩

/-- Whatever is written above the stack that was there leaves it alone. -/
theorem set (h : k.Inside a g fs) {i : Nat} (hi : a.size ≤ i) {v : Value} {n : UInt64} {w : Memory}
    (hw : k.memory.set i v n = .ok w) : ({ k with memory := w } : Machine).Inside a g fs := by
  obtain ⟨l, hc, hl⟩ := h.memory
  obtain ⟨j, rfl⟩ := Nat.exists_eq_add_of_le hi
  rw [hl, Memory.set_above] at hw
  cases hs : l.set j v n with
  | error e =>
    rw [hs] at hw
    cases hw
  | ok l' =>
    rw [hs] at hw
    cases hw
    refine ⟨⟨l', ?_, rfl⟩, h.frames⟩
    rw [Memory.set_ok hs]
    exact hc

/-- A method that is entered gets a frame above all others. -/
theorem enter (h : k.Inside a g fs) {f : Frame} (hf : k.frames.head? = some f) {d : Method}
    {i : Nat} (hi : a.size ≤ i) {args : List Value} {w w' : Memory}
    (hw : k.memory.push (f.base + f.size) d.frame = .ok w)
    (hw' : passArgs (f.base + f.size) 1 args w = .ok w') (returnTo next : Nat) :
    ({ k with
      memory := w'
      frames := ⟨f.base + f.size, d.frame, returnTo, some i⟩ :: k.frames
      next := next } : Machine).Inside a g fs := by
  obtain ⟨l, hc, hl⟩ := h.memory
  obtain ⟨_, _, hk, hb⟩ := h.frames.active
  rw [hk] at hf
  cases hf
  obtain ⟨j, hj⟩ := Nat.exists_eq_add_of_le (Nat.le_add_right_of_le hb : a.size ≤ f.base + f.size)
  rw [hj, hl] at hw
  obtain ⟨l₁, hl₁, rfl⟩ := Memory.push_above hc hw
  rw [hj, passArgs_above] at hw'
  cases hp : passArgs j 1 args l₁ with
  | error e =>
    rw [hp] at hw'
    cases hw'
  | ok l₂ =>
    rw [hp] at hw'
    cases hw'
    refine ⟨⟨l₂, ?_, rfl⟩, .inner (Nat.le_add_right_of_le hb) ?_ h.frames⟩
    · obtain ⟨_, rfl, _⟩ := passArgs_keeps hp
      exact (Memory.capacity_push hl₁).trans hc
    · rintro _ ⟨⟩
      exact hi

/-- Frames above `g` return to frames that are there. -/
theorem ret (h : k.Inside a g fs) (hn : k.frames.length ≠ fs.length + 1) {σ : Type} {k' : Machine}
    {s t : σ} (hr : Exec.ret k s = ((.ok (), k'), t)) : k'.Inside a g fs := by
  obtain ⟨rfl, f, l, hf, ho⟩ := Exec.ret_ok hr
  have ha := h.frames
  rw [hf] at ha hn
  cases ha with
  | callee => exact absurd rfl hn
  | inner hb hi ha =>
    obtain ⟨_, rfl⟩ | ⟨i, v, w, hj, _, hw, rfl⟩ := ho
    · exact ⟨h.memory, h.frames⟩
    · obtain ⟨q, hc, hq⟩ := h.memory
      obtain ⟨j, hj'⟩ := Nat.exists_eq_add_of_le hb
      have hp : ({ k with memory := k.memory.pop f.base, frames := l } : Machine).Inside a g fs :=
        ⟨⟨q.pop j, hc, by rw [hq, hj', Memory.pop_above]⟩, ha⟩
      exact (hp.set (hi i hj) hw).still k.credits k.offset f.returnTo k.operands

end Inside

end Machine

/-! ### What instructions do inside -/

namespace Exec

variable {σ : Type} {a : Array Value} {g : Frame} {fs : List Frame}

/-- What is made of parts that stay inside stays inside. -/
def inside (σ : Type) (a : Array Value) (g : Frame) (fs : List Frame) : Comparison σ σ :=
  keeping σ (Machine.Inside a g fs) (E := fun _ => True) fun _ _ => trivial

/-- What an instruction does apart from the storage keeps to the frames above. -/
theorem inside_locals : (inside σ a g fs).Locals where
  onOperands f m s hm := .ok (hm.still m.credits m.offset m.next _)
  constant i n m s hm := (inside σ a g fs).check (Plain.constant m.memory i n) m s hm
  slot i n := by
    refine .of_ok fun hm h => ?_
    obtain ⟨_, _, _, hi, hs⟩ := bind_ok h
    obtain ⟨_, rfl, rfl⟩ := stackIndex_ok hi
    obtain ⟨_, rfl, rfl⟩ := check_ok hs
    exact hm
  setSlot i v n := by
    refine .of_ok fun hm h => ?_
    obtain ⟨_, _, _, hi, hs⟩ := bind_ok h
    obtain ⟨⟨f, hf, _, rfl⟩, rfl, rfl⟩ := stackIndex_ok hi
    obtain ⟨w, hw, rfl, rfl⟩ := setSlot_ok hs
    -- The active frame is based above the slots that are to be left alone.
    obtain ⟨_, _, hk, hb⟩ := hm.frames.active
    rw [hk] at hf
    cases hf
    exact hm.set (Nat.le_add_right_of_le hb) hw
  jump p n := by
    rw [jump]
    dsimp only
    split
    · exact (inside σ a g fs).throw rfl
    · exact .modify fun m hm => hm.still m.credits m.offset _ m.operands
  call o p n i l := by
    refine .of_ok fun {m _ _ _ _} hm h => ?_
    obtain ⟨d, f, j, c, args, _, _, hf, _, _, _, _, he⟩ := call_inv h
    obtain ⟨f', w, w', hf', hw, hw', rfl, rfl⟩ := enter_ok he
    obtain ⟨_, _, hk, hb⟩ := hm.frames.active
    rw [hf] at hf'
    cases hf'
    rw [hk] at hf
    cases hf
    have hm := hm.still c m.offset m.next m.operands
    exact hm.enter (congrArg List.head? hk) (Nat.le_add_right_of_le hb) hw hw' _ _

/-- The storage has nothing to do with the frames. -/
theorem inside_asks (b : Backend σ) : (inside σ a g fs).Asks b b where
  get hf m s hm := hf m m rfl m s hm
  ask r := by
    refine .of_ok fun {m k s t v} hm h => ?_
    rw [ask_apply] at h
    split at h <;> cases h
    exact hm
  charge c n := by
    refine .of_ok fun {m k s t v} hm h => ?_
    obtain ⟨c, _, rfl, rfl⟩ := charge_ok h
    exact hm.still c m.offset m.next m.operands
  guard o := by
    refine .of_ok fun {m k s t v} hm h => ?_
    rw [guard, get_apply] at h
    split at h <;> cases h
    exact hm

section Runs

variable {b : Backend σ} {m k : Machine} {s t : σ}

/-- A call of another contract changes the base, and what has been spent. -/
theorem callContract_frame {o : Opcode} {n i l : UInt64}
    (h : callContract o (run b) n i l m s = ((.ok (), k), t)) :
    ∃ f j v c w, m.frames.head? = some f ∧ Region.ofAddress? n = some (.stack j) ∧
      j + l.toNat < f.size ∧ m.memory.set (f.base + j) v n = .ok w ∧
      k = { m with memory := w, credits := c } := by
  obtain ⟨f, j, _, _, _, c, _, v, m', w, hf, hn, hl, _, _, _, _, _, hd, hw, rfl⟩ :=
    callContract_inv h
  obtain ⟨g, k, _, _, _, _, rfl⟩ := delegate_ok hd
  exact ⟨f, j, v, _, w, hf, hn, hl, hw, rfl⟩

/-- Another contract has a machine of its own, with its own stack. -/
theorem inside_callContract (o : Opcode) (n i l : UInt64) :
    (inside σ a g fs).Holds (callContract o (run b) n i l) (callContract o (run b) n i l) := by
  refine .of_ok fun {m k s t v} hm h => ?_
  obtain ⟨f, j, _, c, w, hf, _, _, hw, rfl⟩ := callContract_frame h
  obtain ⟨_, _, hk, hb⟩ := hm.frames.active
  rw [hk] at hf
  cases hf
  exact (hm.set (Nat.le_add_right_of_le hb) hw).still c m.offset m.next m.operands

/-- Every instruction stays inside, but for a return. -/
theorem inside_perform (p : Program) {o : Opcode} (ho : o ≠ .ret) (l : Vector Operand 3) :
    (inside σ a g fs).Holds (perform b (run b) (p, o, l)) (perform b (run b) (p, o, l)) := by
  have ha : (inside σ a g fs).Asks b b := inside_asks b
  have hc := ha.requests.changes inside_locals
  rw [perform]
  dsimp only
  split
  · next hm => exact hc.mutate o l _ _ p hm fun _ => ha.newMap .newmap
  · next hm =>
    refine (inside σ a g fs).bind (inside_locals.fill l) fun _ => ?_
    exact hc.toParts.execute o p (by simpa using hm) (fun hr => absurd hr ho)
      (inside_callContract .xcall)

end Runs

end Exec

namespace Machine

open Exec

variable {σ : Type} {b : Backend σ} {a : Array Value} {g : Frame} {fs : List Frame}
  {k n : Machine} {s t : σ}

/-- A turn stays inside, unless the frame `g` returns. -/
theorem Inside.turn (h : k.Inside a g fs) (hr : ¬ k.Returning (fs.length + 1))
    (ht : Exec.turn b k s = ((.ok (), n), t)) : n.Inside a g fs := by
  obtain ⟨p, o, l, c, hi, _, ht⟩ := turn_performs ht
  have hk := h.still c k.next (k.next + 1)
  by_cases ho : o = .ret
  · subst ho
    refine (hk (.of l)).ret (fun hn => hr ⟨hn, ?_⟩) ht
    rw [hi]
    rfl
  · exact (inside_perform p ho l).ok (hk k.operands) ht

/-- Everything stays inside until the frame `g` returns. -/
theorem Inside.until (h : k.Inside a g fs) (hu : Until b (·.Returning (fs.length + 1)) k s n t) :
    n.Inside a g fs ∧ n.Returning (fs.length + 1) := by
  induction hu with
  | done hp => exact ⟨h, hp⟩
  | turn hp _ ht _ ih => exact ih (h.turn hp ht)

/-! ### Calls -/

/-- The machine `k` has been called by `m`, with `n` arguments after the slot `i` of its frame `f`:
    there is a new frame `g` at the end of the stack, and its other slots are nil. -/
structure Entered (m : Machine) (f : Frame) (i n : Nat) (g : Frame) (k : Machine) : Prop where
  active : m.frames.head? = some f
  window : i + n < f.size
  frames : k.frames = g :: m.frames
  base : g.base = m.memory.stack.size
  returnTo : g.returnTo = m.next
  resultAt : g.resultAt = some (f.base + i)
  size : n < g.size
  values : ∀ x, k.stackValue x =
    if 0 < x ∧ x ≤ n then m.stackValue (i + x) else if x < g.size then some .nil else none
  inside : k.Inside m.memory.stack g m.frames

variable {m : Machine}

/-- What `CALL` comes to, if it goes on: the method has been entered. -/
theorem entered_of_call (hm : m.Tidy) {o : Opcode} {p : Program} {r j c : UInt64}
    (h : Exec.call o p r j c m s = ((.ok (), k), t)) :
    ∃ f i g, Region.ofAddress? r = some (.stack i) ∧ m.Entered f i c.toNat g k := by
  obtain ⟨d, f, i, q, args, _, hc, hf, hr, hl, _, ha, he⟩ := call_inv h
  obtain ⟨f', w, w', hf', hw, hw', rfl, rfl⟩ := enter_ok he
  obtain rfl : f = f' := Option.some.inj (hf.symm.trans hf')
  obtain ⟨hn, hx⟩ := Memory.slots_ok ha
  -- The frame is at the end of the stack.
  have hb := hm.active hf
  rw [hb] at hw hw'
  have hz : c.toNat < d.frame := by
    have hd : d.arity.toNat + 1 ≤ d.frame := Nat.le_max_right _ _
    have := d.arity.toNat_lt
    rw [hc, UInt64.toNat_ofNat', Nat.mod_eq_of_lt (by omega)]
    omega
  obtain rfl := Memory.push_end hm.capacity hw
  refine ⟨f, i, _, hr, hf, hl, rfl, hb, rfl, rfl, hz, fun x => ?_, ?_, .callee hb.ge⟩
  · rw [stackValue_eq rfl]
    dsimp only
    rw [hb, passArgs_slots hw', hn, stackValue_eq hf]
    by_cases hc : 0 < x ∧ x ≤ c.toNat
    · obtain ⟨y, rfl⟩ : ∃ y, x = y + 1 := ⟨x - 1, by omega⟩
      have hy : f.base + i + 1 + y = f.base + (i + (y + 1)) := by omega
      rw [if_pos hc, if_pos (by omega), if_pos (by omega), if_pos (by omega), Nat.add_sub_cancel,
        ← hx y (by omega), hy]
    · rw [if_neg hc, if_neg (by omega : ¬ (1 ≤ x ∧ x < 1 + c.toNat))]
      dsimp only
      rw [Array.getElem?_append_right (Nat.le_add_right ..), Nat.add_sub_cancel_left]
      by_cases hx : x < d.frame
      · rw [if_pos hx, if_pos hx, Array.getElem?_replicate, if_pos hx]
      · rw [if_neg hx, if_neg hx]
  · have hw' : passArgs (m.memory.stack.size + 0) 1 args
        (({ m.memory with stack := Array.replicate d.frame .nil } : Memory).above m.memory.stack) =
          .ok w' := hw'
    rw [passArgs_above] at hw'
    cases hp : passArgs 0 1 args { m.memory with stack := Array.replicate d.frame .nil } with
    | error e =>
      rw [hp] at hw'
      cases hw'
    | ok l =>
      rw [hp] at hw'
      cases hw'
      refine ⟨l, ?_, rfl⟩
      obtain ⟨_, rfl, _⟩ := passArgs_keeps hp
      exact hm.capacity

/-- When the frame of a callee returns, the caller is as it was, but for the base. -/
theorem Inside.returns (h : k.Inside a g fs) {i : Nat} (hk : k.Returning (fs.length + 1))
    (hb : g.base = a.size) (hz : 0 < g.size) (hi : g.resultAt = some i)
    (ht : Exec.turn b k s = ((.ok (), n), t)) :
    n.frames = fs ∧ n.next = g.returnTo ∧
      ∃ v, k.stackValue 0 = some v ∧ n.memory.stack = a.setIfInBounds i v := by
  obtain ⟨p, o, l, c, ho, _, ht⟩ := turn_performs ht
  have hr := hk.2
  rw [ho] at hr
  cases hr
  obtain ⟨_, f, l, hf, hn⟩ := ret_ok (m := holding _ (.of l)) ht
  -- It is the frame of the callee that returns: the machine has no more frames.
  have ha := h.frames
  have hl := hk.1
  rw [show k.frames = f :: l from hf] at ha hl
  cases ha with
  | inner _ _ ha =>
    have := ha.length
    simp at hl
    omega
  | callee =>
    obtain ⟨hi', _⟩ | ⟨j, v, w, hj, hv, hw, rfl⟩ := hn
    · rw [hi] at hi'
      cases hi'
    · rw [hi] at hj
      cases hj
      refine ⟨rfl, rfl, v, ?_, ?_⟩
      · have hk : k.frames = g :: fs := hf
        rw [stackValue_eq (congrArg List.head? hk), if_pos hz]
        exact Memory.slot_ok hv
      · obtain ⟨q, _, hq⟩ := h.memory
        have ha : k.memory.pop a.size = (q.pop 0).above a := by
          rw [hq]
          exact Memory.pop_above (i := 0)
        obtain rfl := Memory.set_ok hw
        dsimp only [holding]
        rw [hb, ha]
        simp [Memory.above, Memory.pop]

/-- When a method has returned to its caller, the base has what the slot 0 of its frame held. -/
theorem Entered.returned {f : Frame} {i l : Nat} {m' : Machine} {u u' : σ}
    (h : m.Entered f i l g k) (hm : m.Tidy)
    (hu : Until b (·.Returning (m.frames.length + 1)) k t n u)
    (hn : Exec.turn b n u = ((.ok (), m'), u')) :
    m'.frames = m.frames ∧ m'.next = m.next ∧ (n.stackValue 0).isSome ∧
      m'.stackValue i = n.stackValue 0 ∧
      ∀ x, x ≠ f.base + i → m'.memory.stack[x]? = m.memory.stack[x]? := by
  obtain ⟨hh, hp⟩ := h.inside.until hu
  obtain ⟨hf, hx, v, hv, hw⟩ := hh.returns hp h.base (Nat.zero_lt_of_lt h.size) h.resultAt hn
  refine ⟨hf, hx.trans h.returnTo, ?_, ?_, fun x hx => ?_⟩
  · rw [hv]
    rfl
  · -- The base is a slot of the caller.
    have hb := hm.active h.active
    have hl := h.window
    have hs : f.base + i < m.memory.stack.size := by omega
    rw [stackValue_eq (f := f) (by rw [hf]; exact h.active), hw, hv, if_pos (by omega)]
    exact Array.getElem?_setIfInBounds_self_of_lt hs
  · rw [hw]
    exact Array.getElem?_setIfInBounds_ne (Ne.symm hx)

/-- Calls are isolated from the frame of their caller. After `CALL`, there is one more frame, whose
    slots are nil but for the arguments, which are those after the base. When this frame returns,
    whatever was executed since, the frames are those before the call, the machine goes on after
    it, and no slot of the stack has changed but the base: it has what the slot 0 of the frame
    held. After `XCALL`, too, the frames and the slots are those before, but for the base. -/
theorem call_isolated (hm : m.Reachable b) {r j c : UInt64} :
    (m.instruction? = some (.call, #v[.addr r, .imm j, .imm c]) →
      ∀ {k n m' : Machine} {s t u u' : σ}, Exec.turn b m s = ((.ok (), k), t) →
      Until b (·.Returning (m.frames.length + 1)) k t n u →
      Exec.turn b n u = ((.ok (), m'), u') →
      ∃ f i g, m.frames.head? = some f ∧ Region.ofAddress? r = some (.stack i) ∧
        i + c.toNat < f.size ∧ (k.frames = g :: m.frames ∧ c.toNat < g.size ∧ ∀ x, k.stackValue x =
          if 0 < x ∧ x ≤ c.toNat then m.stackValue (i + x)
          else if x < g.size then some .nil else none) ∧
        m'.frames = m.frames ∧ m'.next = m.next + 1 ∧ (n.stackValue 0).isSome ∧
        m'.stackValue i = n.stackValue 0 ∧
        ∀ x, x ≠ f.base + i → m'.memory.stack[x]? = m.memory.stack[x]?) ∧
    (m.instruction? = some (.xcall, #v[.addr r, .imm j, .imm c]) →
      ∀ {m' : Machine} {s t : σ}, Exec.turn b m s = ((.ok (), m'), t) →
      ∃ f i, m.frames.head? = some f ∧ Region.ofAddress? r = some (.stack i) ∧
        i + c.toNat < f.size ∧ m'.frames = m.frames ∧ m'.next = m.next + 1 ∧
        ∀ x, x ≠ f.base + i → m'.memory.stack[x]? = m.memory.stack[x]?) := by
  refine ⟨fun hi k n m' s t u u' hk hu hn => ?_, fun hi m' s t hk => ?_⟩
  · -- What the turn has fetched is the call, so that it has entered the method.
    obtain ⟨p, q, hk⟩ := turn_call hi hk
    have ht := hm.tidy.still q m.next (m.next + 1) ⟨#v[.addr r, .imm j, .imm c], 3⟩ m.status
    obtain ⟨f, i, g, hr, he⟩ := entered_of_call ht hk
    obtain ⟨hf, hx, hv, hw, hs⟩ := he.returned ht hu hn
    exact ⟨f, i, g, he.active, hr, he.window, ⟨he.frames, he.size, he.values⟩, hf, hx, hv, hw, hs⟩
  · obtain ⟨q, hk⟩ := turn_xcall hi hk
    obtain ⟨f, i, v, q', w, hf, hr, hl, hw, rfl⟩ := callContract_frame hk
    obtain rfl := Memory.set_ok hw
    refine ⟨f, i, hf, hr, hl, rfl, rfl, fun x hx => ?_⟩
    exact Array.getElem?_setIfInBounds_ne (Ne.symm hx)

/-- A program whose first method calls the second one, and this the third one. -/
def cascade : Program where
  constants := #[]
  code := #[.of .call [.stack 1, .imm 1, .imm 1], .of .ret [],
    .of .copy [.stack 3, .stack 1], .of .call [.stack 2, .imm 2, .imm 1],
    .of .add [.stack 0, .stack 2, .imm 1], .of .ret [],
    .of .mul [.stack 0, .stack 1, .stack 1], .of .ret []]
  methods := #[⟨"main", 0, 3, 2, true⟩, ⟨"next", 2, 4, 1, true⟩, ⟨"square", 6, 2, 1, true⟩]
  lines := #[]

/-- A machine that is about to call the second method, with 5. -/
def cascading : Machine :=
  (((new ⟨7⟩ false (fun _ => none) 0).load cascade).begin (.index 0) [.nil, .ofWord64 5] 2000).2

/-- The method that is called calls another one in its turn. Its caller sees the result of it in
    slot 1, and its own slot 2 as before. -/
theorem call_isolated_cascading :
    let go (y : (Except Abort Unit × Machine) × Ledger) := Exec.turn Ledger.backend y.1.2 y.2
    let k := Exec.turn Ledger.backend cascading .sample
    let n := go (go (go (go (go k))))
    let m' := (go n).1.2
    let x := (Exec.turn Ledger.backend calling .sample).1.2
    (k.1.2.stackValue 1 = cascading.stackValue 2 ∧ n.1.2.stackValue 0 = some (.ofWord64 26)) ∧
      (m'.frames = cascading.frames ∧ m'.stackValue 1 = n.1.2.stackValue 0 ∧
        m'.memory.stack[2]? = cascading.memory.stack[2]?) ∧
      x.frames = calling.frames ∧ x.memory.stack[2]? = calling.memory.stack[2]? := by
  intro go k n m' x
  -- What is executed goes on.
  have he := @goes_on Ledger
  have hu : Until Ledger.backend (·.Returning (cascading.frames.length + 1)) k.1.2 k.2
      n.1.2 n.2 := by
    refine .turn (by decide +kernel) (by decide +kernel) (he (go k) (by decide +kernel)) ?_
    refine .turn (by decide +kernel) (by decide +kernel) (he (go (go k)) (by decide +kernel)) ?_
    refine .turn (by decide +kernel) (by decide +kernel)
      (he (go (go (go k))) (by decide +kernel)) ?_
    refine .turn (by decide +kernel) (by decide +kernel)
      (he (go (go (go (go k)))) (by decide +kernel)) ?_
    refine .turn (by decide +kernel) (by decide +kernel) (he n (by decide +kernel)) ?_
    exact .done (by decide +kernel)
  have hm : cascading.Reachable Ledger.backend := .step (.step (.new ..) (.load ..)) (.begin ..)
  have hn : Exec.turn Ledger.backend n.1.2 n.2 = ((.ok (), m'), (go n).2) :=
    he (go n) (by decide +kernel)
  have hx : Exec.turn Ledger.backend calling .sample =
      ((.ok (), x), (Exec.turn Ledger.backend calling .sample).2) := he _ (by decide +kernel)
  obtain ⟨f, i, g, hf, hi, _, ⟨_, _, hk⟩, hm', _, _, hv, hs⟩ :=
    (call_isolated hm (r := stackBase + 1) (j := 1) (c := 1)).1 (by decide +kernel)
      (he k (by decide +kernel)) hu hn
  obtain ⟨f', i', hf', hi', _, hx, _, hs'⟩ :=
    (call_isolated reachable_calling (r := stackBase + 1) (j := 1) (c := 1)).2
      (by decide +kernel) hx
  have hr : Region.ofAddress? (stackBase + 1) = some (.stack 1) := by decide
  cases hr.symm.trans hi
  cases hr.symm.trans hi'
  have hc : cascading.frames.head? = some ⟨0, 3, 0, none⟩ := by decide +kernel
  have hc' : calling.frames.head? = some ⟨0, 3, 0, none⟩ := by decide +kernel
  cases hc.symm.trans hf
  cases hc'.symm.trans hf'
  refine ⟨⟨(hk 1).trans (if_pos (by decide)), by decide +kernel⟩, ⟨hm', hv, ?_⟩, hx, ?_⟩
  · exact hs 2 (by decide)
  · exact hs' 2 (by decide)

end Machine

end CreditMachine
