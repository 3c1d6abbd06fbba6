import CreditMachine.Proofs.Budget
import CreditMachine.Proofs.Decoding
import CreditMachine.Proofs.Frames

/-!
# Executions that go on

If an execution does not abort, then none of its parts has, and what they have done can be
read off. There is a lemma for each part: in the end, for the call of a method
(`Exec.call_ok`), of another contract (`Exec.callContract_ok`), for the run that the
latter comes to (`Exec.delegate_ok`), and for a turn (`Exec.turn_performs`).
-/

namespace CreditMachine

/-- An address is read back from its bytes. -/
theorem Address.ofBytes?_bytes (c : Address) : ofBytes? c.bytes = some c := by
  have hl : c.bytes.length = 32 := by rw [bytes, Word.bytes, length_bigEndian]
  have hn : c.word.toNat < 256 ^ 32 := Nat.lt_of_lt_of_eq c.word.isLt (by decide)
  have hw : ofBigEndian c.bytes = c.word.toNat := by
    rw [ofBigEndian, bytes, Word.bytes, bigEndian, List.reverse_reverse,
      ofLittleEndian_littleEndian hn]
  rw [ofBytes?, if_pos hl, Word.ofBytes, hw, BitVec.ofNat_toNat, BitVec.setWidth_eq]

namespace Memory

variable {k l : Memory} {i : Nat} {n : UInt64} {v : Value}

theorem slot_ok (h : k.slot i n = .ok v) : k.stack[i]? = some v := by
  rw [slot] at h
  split at h
  · next hv =>
    cases h
    exact hv
  · cases h

theorem set_ok (h : k.set i v n = .ok l) :
    l = { k with stack := k.stack.setIfInBounds i v } := by
  rw [set] at h
  split at h <;> cases h
  rfl

end Memory

/-- A slot of the active frame is one of the stack, counted from the base. -/
theorem Machine.stackValue_eq {m : Machine} {f : Frame} (hf : m.frames.head? = some f) (i : Nat) :
    m.stackValue i = if i < f.size then m.memory.stack[f.base + i]? else none := by
  rw [stackValue, hf]
  rfl

/-- A slot of the active frame that has a value is in the stack. -/
theorem Machine.stackValue_ok {m : Machine} {i : Nat} {v : Value} (hv : m.stackValue i = some v) :
    ∃ f, m.frames.head? = some f ∧ i < f.size ∧ m.memory.stack[f.base + i]? = some v := by
  cases hf : m.frames.head? with
  | none =>
    rw [stackValue, hf] at hv
    cases hv
  | some f =>
    rw [stackValue_eq hf] at hv
    split at hv
    · next hi => exact ⟨f, rfl, hi, hv⟩
    · cases hv

/-- The instruction that is executed next. -/
def Machine.instruction? (m : Machine) : Option (Opcode × Vector Operand 3) := do
  let d ← (← m.program).code[m.next]?
  return (← Opcode.ofCode? d.code, d.operands)

namespace Exec

variable {σ α β : Type}

/-- An execution that goes on has gone on before. -/
theorem bind_ok {x : Exec σ α} {f : α → Exec σ β} {m m' : Machine} {s s' : σ} {w : β}
    (h : (x >>= f) m s = ((.ok w, m'), s')) :
    ∃ v k t, x m s = ((.ok v, k), t) ∧ f v k t = ((.ok w, m'), s') := by
  rw [bind_apply] at h
  split at h
  · next hx => exact ⟨_, _, _, hx, h⟩
  · cases h

/-- Executions that go on in the same way come to the same. -/
theorem bind_congr_at {x : Exec σ α} {f g : α → Exec σ β} {m : Machine} {s : σ}
    (h : ∀ v k t, x m s = ((.ok v, k), t) → f v k t = g v k t) :
    (x >>= f) m s = (x >>= g) m s := by
  rw [bind_apply, bind_apply]
  split
  · next hx => exact h _ _ _ hx
  · rfl

variable {m m' : Machine} {s s' : σ} {u : Unit}

theorem check_ok {x : Except Abort α} {v : α} (h : check x m s = ((.ok v, m'), s')) :
    x = .ok v ∧ m' = m ∧ s' = s := by
  rw [check_apply] at h
  cases h
  exact ⟨rfl, rfl, rfl⟩

theorem charge_ok {c : Category} {n : UInt64} (h : charge c n m s = ((.ok u, m'), s')) :
    ∃ k, m.credits.charge c n = .ok k ∧ m' = { m with credits := k } ∧ s' = s := by
  rw [charge_apply] at h
  cases hk : m.credits.charge c n with
  | error e =>
    rw [hk] at h
    cases h
  | ok k =>
    rw [hk] at h
    cases h
    exact ⟨k, rfl, rfl, rfl⟩

theorem setSlot_ok {i : Nat} {v : Value} {a : UInt64} (h : setSlot i v a m s = ((.ok u, m'), s')) :
    ∃ k, m.memory.set i v a = .ok k ∧ m' = { m with memory := k } ∧ s' = s := by
  rw [setSlot_apply] at h
  cases hk : m.memory.set i v a with
  | error e =>
    rw [hk] at h
    cases h
  | ok k =>
    rw [hk] at h
    cases h
    exact ⟨k, rfl, rfl, rfl⟩

theorem onOperands_apply (f : Operands → α × Operands) (m : Machine) (s : σ) : onOperands f m s =
    ((.ok (f m.operands).1, { m with operands := (f m.operands).2 }), s) := rfl

/-- An operand is taken from the buffer, and the next one is the one after it. -/
theorem onOperands_next_apply (m : Machine) (s : σ) : onOperands Operands.next m s =
    ((.ok m.operands.next.1, { m with operands := m.operands.advance }), s) := rfl

/-- The operand that a destination was read from was an address. -/
theorem destination_ok {o : Opcode} {a : UInt64} (h : destination o m s = ((.ok a, m'), s')) :
    m.operands.next.1.2 = .addr a ∧ m' = { m with operands := m.operands.advance } ∧ s' = s := by
  rw [destination, bind_apply, onOperands_next_apply] at h
  generalize m.operands.next.1 = x at h ⊢
  obtain ⟨_, _ | a | n⟩ := x <;> cases h
  exact ⟨rfl, rfl, rfl⟩

/-- The operand that a number was read from was a number. -/
theorem immediate_ok {o : Opcode} {n : UInt64} (h : immediate o m s = ((.ok n, m'), s')) :
    m.operands.next.1.2 = .imm n ∧ m' = { m with operands := m.operands.advance } ∧ s' = s := by
  rw [immediate, bind_apply, onOperands_next_apply] at h
  generalize m.operands.next.1 = x at h ⊢
  obtain ⟨_, _ | a | n⟩ := x <;> cases h
  exact ⟨rfl, rfl, rfl⟩

theorem marked_ok {x : Exec σ Unit} (h : marked x m s = ((.ok u, m'), s')) :
    x m s = ((.ok u, m'), s') := by
  rw [marked_apply] at h
  generalize x m s = a at h
  obtain ⟨⟨_ | _, _⟩, _⟩ := a <;> cases h
  rfl

/-- A method was entered: there is a frame for it above the active one, with the arguments in its
    slots from 1 on. -/
theorem enter_ok {d : Method} {i : Nat} {args : List Value}
    (h : enter d i args m s = ((.ok u, m'), s')) :
    ∃ f k k', m.frames.head? = some f ∧ m.memory.push (f.base + f.size) d.frame = .ok k ∧
      Machine.passArgs (f.base + f.size) 1 args k = .ok k' ∧ s' = s ∧
      m' = { m with
        memory := k'
        frames := ⟨f.base + f.size, d.frame, m.next, some i⟩ :: m.frames
        next := d.entry.toNat } := by
  rw [enter_apply] at h
  split at h
  · cases h
  next f hf =>
  split at h
  · cases h
  next k hk =>
  split at h
  · cases h
  next k' hk' =>
  cases h
  exact ⟨f, k, k', hf, hk, hk', rfl, rfl⟩

/-- The outermost frame finishes the execution. Any other one is given up, with its result
    at a slot of its caller. -/
theorem ret_ok (h : ret m s = ((.ok u, m'), s')) : s' = s ∧ ∃ f l, m.frames = f :: l ∧
    (f.resultAt = none ∧ m' = { m with status := .finished } ∨
      ∃ i v w, f.resultAt = some i ∧ m.memory.slot f.base stackBase = .ok v ∧
        (m.memory.pop f.base).set i v stackBase = .ok w ∧
        m' = { m with memory := w, frames := l, next := f.returnTo }) := by
  rw [ret_apply] at h
  split at h
  · cases h
  next f l hf =>
  split at h
  · next hi =>
    cases h
    exact ⟨rfl, f, l, hf, .inl ⟨hi, rfl⟩⟩
  next i hi =>
  split at h
  · cases h
  next v hv =>
  split at h
  · cases h
  next w hw =>
  cases h
  exact ⟨rfl, f, l, hf, .inr ⟨i, v, w, hi, hv, hw, rfl⟩⟩

variable {b : Backend σ} {o : Opcode} {p : Program}

theorem checkDepth_ok (h : checkDepth m s = ((.ok u, m'), s')) : m' = m ∧ s' = s := by
  rw [checkDepth, get_apply] at h
  split at h <;> cases h
  exact ⟨rfl, rfl⟩

/-- A place on the stack was found in the active frame. -/
theorem stackIndex_ok {j i : Nat} {a : UInt64} (h : stackIndex j a m s = ((.ok i, m'), s')) :
    (∃ f, m.frames.head? = some f ∧ j < f.size ∧ i = f.base + j) ∧ m' = m ∧ s' = s := by
  rw [stackIndex, get_apply] at h
  cases hf : m.frames.head? with
  | none =>
    rw [hf] at h
    cases h
  | some f =>
    rw [hf] at h
    dsimp only at h
    split at h
    · cases h
    next hj =>
    cases h
    exact ⟨⟨f, rfl, Nat.lt_of_not_le hj, rfl⟩, rfl, rfl⟩

/-- The base of a call, and the slots of its arguments, are in the active frame. -/
theorem window_ok {a n : UInt64} {i : Nat} (h : window o a n m s = ((.ok i, m'), s')) :
    (∃ f j, m.frames.head? = some f ∧ Region.ofAddress? a = some (.stack j) ∧
      j + n.toNat < f.size ∧ i = f.base + j) ∧ m' = m ∧ s' = s := by
  rw [window, resolve] at h
  generalize Region.ofAddress? a = r at h
  obtain ⟨_, _, _, hr, h⟩ := bind_ok h
  rcases r with _ | (j | j | j) <;> cases hr
  · cases h
  · dsimp only at h
    split at h
    · cases h
    obtain ⟨_, _, _, hl, hi⟩ := bind_ok h
    obtain ⟨⟨f, hf, hn, _⟩, rfl, rfl⟩ := stackIndex_ok hl
    obtain ⟨⟨f', hf', _, rfl⟩, rfl, rfl⟩ := stackIndex_ok hi
    rw [hf] at hf'
    cases hf'
    exact ⟨⟨f, j, hf, rfl, hn, rfl⟩, rfl, rfl⟩
  · cases h

/-- A value that was taken for an address is the bytes of one. -/
theorem address_ok {v : Value} {c : Address} (h : address o v m s = ((.ok c, m'), s')) :
    (∃ l, v = .bytes l ∧ Address.ofBytes? l = some c) ∧ m' = m ∧ s' = s := by
  unfold address at h
  cases v with
  | bytes l =>
    dsimp only at h
    cases hc : Address.ofBytes? l with
    | none =>
      rw [hc] at h
      cases h
    | some c =>
      rw [hc] at h
      cases h
      exact ⟨⟨l, rfl, hc⟩, rfl, rfl⟩
  | _ => cases h

/-- A call of a method names one, with as many arguments as it has, in slots of the active frame.
    It is charged, and then the method is entered. -/
theorem call_inv {a n k : UInt64} (h : call o p a n k m s = ((.ok u, m'), s')) :
    ∃ d f j c args, p.methods[n.toNat]? = some d ∧ k = UInt64.ofNat d.arity.toNat ∧
      m.frames.head? = some f ∧ Region.ofAddress? a = some (.stack j) ∧ j + k.toNat < f.size ∧
      m.credits.charge .callOverhead (mulSat argumentCost k) = .ok c ∧
      m.memory.slots (f.base + j + 1) stackBase k.toNat = .ok args ∧
      enter d (f.base + j) args { m with credits := c } s = ((.ok u, m'), s') := by
  rw [call_eq] at h
  cases hd : p.methods[n.toNat]? with
  | none =>
    rw [hd] at h
    cases h
  | some d =>
    rw [hd] at h
    dsimp only at h
    split at h
    · cases h
    next hk =>
    obtain ⟨_, _, _, hr, h₁⟩ := bind_ok h
    obtain ⟨c, hc, rfl, rfl⟩ := charge_ok hr
    obtain ⟨_, _, _, hr, h₂⟩ := bind_ok h₁
    obtain ⟨rfl, rfl⟩ := checkDepth_ok hr
    obtain ⟨_, _, _, hr, h₃⟩ := bind_ok h₂
    obtain ⟨⟨f, j, hf, ha, hn, rfl⟩, rfl, rfl⟩ := window_ok hr
    obtain ⟨args, _, _, hr, h₄⟩ := bind_ok h₃
    obtain ⟨hs, rfl, rfl⟩ := check_ok hr
    exact ⟨d, f, j, c, args, rfl, not_not.1 hk, hf, ha, hn, hc, hs, h₄⟩

/-- What a call of a method does before the method is entered. -/
theorem call_ok {d : Method} {a n k : UInt64} {j : Nat}
    (ha : Region.ofAddress? a = some (.stack j)) (hd : p.methods[n.toNat]? = some d)
    (h : call o p a n k m s = ((.ok u, m'), s')) : ∃ f c args, m.frames.head? = some f ∧
      m.credits.charge .callOverhead (mulSat argumentCost k) = .ok c ∧
      m.memory.slots (f.base + j + 1) stackBase k.toNat = .ok args ∧
      enter d (f.base + j) args { m with credits := c } s = ((.ok u, m'), s') := by
  obtain ⟨_, f, _, c, args, hd', _, hf, ha', _, hc, hs, he⟩ := call_inv h
  rw [hd] at hd'
  rw [ha] at ha'
  cases hd'
  cases ha'
  exact ⟨f, c, args, hf, hc, hs, he⟩

/-- A call of another contract is a run that has succeeded. -/
theorem delegate_ok {e : Address} {n : UInt64} {args : List Value} {v : Value}
    (h : delegate (run b) e p n args m s = ((.ok v, m'), s')) : ∃ g k,
      (callee m e p).begin (.index n) args m.credits.remaining = (.ok (), g) ∧
      run b g s = ((.ok (), k), s') ∧ k.credits.used.toNat ≤ m.credits.remaining.toNat ∧
      v = k.result.getD .nil ∧
      m' = { m with credits := m.credits.absorb k.credits.used k.credits.profile } := by
  have hu := Machine.call_used_le b (.index n) args (m := callee m e p) rfl m.credits.remaining s
  rw [Machine.call_eq, begin_apply] at hu
  rw [delegate_apply, begin_apply] at h
  generalize (callee m e p).begin (.index n) args m.credits.remaining = x at h hu
  obtain ⟨_ | _, g⟩ := x
  · cases h
  dsimp only at h hu
  generalize hy : run b g s = y at h hu
  obtain ⟨⟨_ | _, k⟩, t⟩ := y <;> cases h
  exact ⟨g, k, rfl, hy, hu, rfl, rfl⟩

/-- A call of a contract has its address at the base, and the registry has a program for it. It is
    charged, and then the contract is called; the base gets the result. -/
theorem callContract_inv {x : Exec σ Unit} {a n k : UInt64}
    (h : callContract o x a n k m s = ((.ok u, m'), s')) :
    ∃ f j l e p c args v m'' w, m.frames.head? = some f ∧ Region.ofAddress? a = some (.stack j) ∧
      j + k.toNat < f.size ∧ m.memory.stack[f.base + j]? = some (.bytes l) ∧
      Address.ofBytes? l = some e ∧ m.registry e = some p ∧
      m.credits.charge .callOverhead (mulSat argumentCost k) = .ok c ∧
      m.memory.slots (f.base + j + 1) stackBase k.toNat = .ok args ∧
      delegate x e p n args { m with credits := c } s = ((.ok v, m''), s') ∧
      m''.memory.set (f.base + j) v a = .ok w ∧ m' = { m'' with memory := w } := by
  -- The parts of a call, from the window to the slot of the result: none of them but the nested run
  -- changes more than the credits.
  obtain ⟨_, _, _, hr, h₁⟩ := bind_ok h
  obtain ⟨⟨f, j, hf, ha, hn, rfl⟩, rfl, rfl⟩ := window_ok hr
  obtain ⟨_, _, _, hr, h₂⟩ := bind_ok h₁
  obtain ⟨hv, rfl, rfl⟩ := check_ok hr
  obtain ⟨e, q, _, hr, h₃⟩ := bind_ok h₂
  obtain ⟨⟨l, rfl, he⟩, rfl, rfl⟩ := address_ok hr
  obtain ⟨_, _, _, hr, h₄⟩ := bind_ok h₃
  obtain ⟨c, hc, rfl, rfl⟩ := charge_ok hr
  obtain ⟨_, _, _, hr, h₅⟩ := bind_ok h₄
  obtain ⟨rfl, rfl⟩ := checkDepth_ok hr
  rw [get_apply] at h₅
  obtain ⟨p, hp⟩ : ∃ p, q.registry e = some p := by
    cases hp : q.registry e with
    | some p => exact ⟨p, rfl⟩
    | none =>
      rw [hp] at h₅
      cases h₅
  rw [hp] at h₅
  obtain ⟨args, _, _, hr, h₆⟩ := bind_ok h₅
  obtain ⟨hs, rfl, rfl⟩ := check_ok hr
  obtain ⟨v, m'', t, hd, h₇⟩ := bind_ok h₆
  obtain ⟨w, hw, rfl, rfl⟩ := setSlot_ok h₇
  exact ⟨f, j, l, e, p, c, args, v, m'', w, hf, ha, hn, Memory.slot_ok hv, he, hp, hc, hs, hd,
    hw, rfl⟩

/-- What a call of a contract does. -/
theorem callContract_ok {x : Exec σ Unit} {e : Address} {a n k : UInt64} {j : Nat}
    (ha : Region.ofAddress? a = some (.stack j)) (hv : m.stackValue j = some (.bytes e.bytes))
    (he : m.registry e = some p) (h : callContract o x a n k m s = ((.ok u, m'), s')) :
    ∃ f c args v m'' w, m.frames.head? = some f ∧
      m.credits.charge .callOverhead (mulSat argumentCost k) = .ok c ∧
      m.memory.slots (f.base + j + 1) stackBase k.toNat = .ok args ∧
      delegate x e p n args { m with credits := c } s = ((.ok v, m''), s') ∧
      m''.memory.set (f.base + j) v a = .ok w ∧ m' = { m'' with memory := w } := by
  obtain ⟨f, _, l, e', p', c, args, v, m'', w, hf, ha', hn, hl, hb, hp, hc, hs, hd, hw, rfl⟩ :=
    callContract_inv h
  rw [ha] at ha'
  cases ha'
  -- The contract is the one at the base.
  rw [Machine.stackValue_eq hf, if_pos (by omega), hl] at hv
  cases hv
  rw [Address.ofBytes?_bytes] at hb
  cases hb
  rw [he] at hp
  cases hp
  exact ⟨f, c, args, v, m'', w, hf, hc, hs, hd, hw, rfl⟩

/-- An execution that has not aborted goes on. -/
theorem goes_on (x : (Except Abort Unit × Machine) × σ) (h : x.1.1.isOk) :
    x = ((.ok (), x.1.2), x.2) := by
  obtain ⟨⟨_ | ⟨⟩, _⟩, _⟩ := x
  · cases h
  · rfl

/-- A turn that goes on executes the next instruction, which has been charged. -/
theorem turn_performs (h : turn b m s = ((.ok (), m'), s')) :
    ∃ p o l c, m.instruction? = some (o, l) ∧ m.credits.charge .opcode o.cost = .ok c ∧
      perform b (run b) (p, o, l) { m with offset := m.next, next := m.next + 1, credits := c } s =
        ((.ok (), m'), s') := by
  have h := marked_ok h
  rw [step_eq] at h
  obtain ⟨⟨p, o, l⟩, _, _, hf, hx⟩ := bind_ok h
  obtain ⟨hp, ⟨d, hd, ho, rfl⟩, c, hc, rfl, rfl⟩ := fetch_ok hf
  refine ⟨p, o, d.operands, c, ?_, hc, hx⟩
  simp [Machine.instruction?, hp, hd, ho]

end Exec

end CreditMachine
