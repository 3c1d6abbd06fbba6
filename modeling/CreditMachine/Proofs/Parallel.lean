import CreditMachine.Proofs.Buffer
import CreditMachine.Proofs.Hosts

/-!
# Hosts and guests in parallel

A host and its guest go on in parallel: if both do not abort, then they do the same
(`Machine.Parallel`), turn by turn (`Machine.Hosts.turn`), until the outermost frame of the
guest returns, and with it the host, to the caller (`Machine.served_of_until`).
-/

namespace CreditMachine

namespace Machine

open Exec

variable {σ : Type} {α β : Type} {m : Machine} {i : Nat}

/-- What the buffers hold does not matter between instructions. -/
theorem Hosts.holding {k n : Machine} (h : m.Hosts i k n) (v w : Operands) :
    m.Hosts i (k.holding v) (n.holding w) := { h with }

/-- A host and its guest are in the midst of an instruction, and have taken the same operands. -/
structure InStep (m : Machine) (i : Nat) (k n : Machine) : Prop extends m.Hosts i k n where
  operands : k.operands = n.operands

variable (m i) in
/-- What an execution of a host (`x`) and one of its guest (`y`) come to, if both go on:
    values that are related by `V`, the same storage, and again a host and its guest. -/
structure Parallel (V : α → α → Prop) (x y : Exec σ α) : Prop where
  ends : ∀ {k n k' n' : Machine} {s t t' : σ} {v v' : α}, m.InStep i k n →
    x k s = ((.ok v, k'), t) → y n s = ((.ok v', n'), t') → V v v' ∧ t' = t ∧ m.InStep i k' n'

namespace Parallel

variable {V : α → α → Prop} {W : β → β → Prop}

theorem pure {v v' : α} (h : V v v') : m.Parallel i V (pure v : Exec σ α) (Pure.pure v') := by
  constructor
  rintro k n _ _ s _ _ _ _ hk ⟨⟩ ⟨⟩
  exact ⟨h, rfl, hk⟩

/-- Nothing is said of executions that abort. -/
theorem throw_left (e : Abort) (y : Exec σ α) : m.Parallel i V (throw e) y := by
  constructor
  rintro k n _ _ s _ _ _ _ _ ⟨⟩

theorem throw_right (x : Exec σ α) (e : Abort) : m.Parallel i V x (throw e) := by
  constructor
  rintro k n _ _ s _ _ _ _ _ _ ⟨⟩

theorem bind {x y : Exec σ α} {f g : α → Exec σ β} (hx : m.Parallel i V x y)
    (hf : ∀ v v', V v v' → m.Parallel i W (f v) (g v')) :
    m.Parallel i W (x >>= f) (y >>= g) := by
  constructor
  intro k n _ _ s _ _ _ _ h hk hn
  obtain ⟨v, k', t, hk, hk'⟩ := bind_ok hk
  obtain ⟨v', n', t', hn, hn'⟩ := bind_ok hn
  obtain ⟨hv, rfl, h⟩ := hx.ends h hk hn
  exact (hf v v' hv).ends h hk' hn'

theorem get {f g : Machine → Exec σ α} (hf : ∀ k n, m.InStep i k n → m.Parallel i V (f k) (g n)) :
    m.Parallel i V (do f (← get)) (do g (← get)) :=
  ⟨fun h hk hn => (hf _ _ h).ends h hk hn⟩

theorem modify {f g : Machine → Machine} (hf : ∀ k n, m.InStep i k n → m.InStep i (f k) (g n)) :
    m.Parallel i Eq (modify f : Exec σ Unit) (modify g) := by
  constructor
  rintro k n _ _ s _ _ _ _ h ⟨⟩ ⟨⟩
  exact ⟨rfl, rfl, hf k n h⟩

end Parallel

variable (σ m i) in
/-- What is made of parallel parts is parallel. -/
def hosting : Comparison σ σ where
  Holds x y := m.Parallel i Eq x y
  pure _ := .pure rfl
  throw _ := .throw_left _ _
  bind hx hf := .bind hx fun v _ h => h ▸ hf v

/-! ### What instructions do -/

theorem parallel_ask (b : Backend σ) (r : Request) : m.Parallel i Eq (ask b r) (ask b r) := by
  constructor
  intro k n _ _ s _ _ _ _ h hk hn
  rw [ask_apply] at hk hn
  generalize b r s = a at hk hn
  obtain ⟨_ | a, u⟩ := a <;> cases hk
  cases hn
  exact ⟨rfl, rfl, h⟩

theorem parallel_charge (c : Category) (j : UInt64) :
    m.Parallel i Eq (charge c j : Exec σ Unit) (charge c j) := by
  constructor
  intro k n _ _ s _ _ _ _ h hk hn
  obtain ⟨_, hc, rfl, rfl⟩ := charge_ok hk
  obtain ⟨_, hc', rfl, rfl⟩ := charge_ok hn
  exact ⟨rfl, rfl, { h with credits := h.credits.charge hc hc' }⟩

/-- What a host or its guest is refused, no more is said of. -/
theorem parallel_unless (P : Machine → Prop) [DecidablePred P] (e : Abort) :
    m.Parallel i Eq (do if P (← get) then throw e : Exec σ Unit)
      (do if P (← get) then throw e) := by
  refine .get fun k n _ => ?_
  split
  · exact .throw_left _ _
  split
  · exact .throw_right _ _
  · exact .pure rfl

theorem parallel_guard (o : Opcode) : m.Parallel i Eq (guard o : Exec σ Unit) (guard o) :=
  parallel_unless (·.constantOnly) _

/-- The frames of the caller are depth to the guest and frames to the host, and count the same. -/
theorem parallel_checkDepth : m.Parallel i Eq (checkDepth : Exec σ Unit) checkDepth :=
  parallel_unless (fun m => maxDepth ≤ m.depth + m.frames.length) _

/-- A slot of a host and of its guest. -/
def SameSlot (m : Machine) (j j' : Nat) : Prop := j = m.memory.stack.size + j'

/-- A slot of the guest is one of the host, above the stack of the caller. -/
theorem parallel_stackIndex (j : Nat) (a : UInt64) :
    m.Parallel i m.SameSlot (stackIndex j a : Exec σ Nat) (stackIndex j a) := by
  refine .get fun k n h => ?_
  obtain ⟨f, l, hn, hk⟩ := h.active
  rw [hn, hk]
  dsimp only [List.head?]
  split
  · exact .throw_left _ _
  split
  · exact .throw_right _ _
  · exact .pure (Nat.add_assoc ..)

section SameSlot

variable {j j' : Nat} (hj : m.SameSlot j j')

include hj

theorem parallel_slot (a : UInt64) : m.Parallel i Eq (slot j a : Exec σ Value) (slot j' a) := by
  refine .get fun k n h => ?_
  rw [h.memory, hj, Memory.slot_above]
  exact (hosting σ m i).check (.slot _ _ _)

theorem parallel_arguments (l : Nat) :
    m.Parallel i Eq (arguments j l : Exec σ (List Value)) (arguments j' l) := by
  refine .get fun k n h => ?_
  rw [h.memory, hj, Nat.add_assoc, Memory.slots_above]
  exact (hosting σ m i).check (.slots _ _ _ _)

theorem parallel_setSlot (v : Value) (a : UInt64) :
    m.Parallel i Eq (setSlot j v a : Exec σ Unit) (setSlot j' v a) := by
  constructor
  intro k n _ _ s _ _ _ _ h hk hn
  obtain ⟨l, hl, rfl, rfl⟩ := setSlot_ok hk
  obtain ⟨l', hl', rfl, rfl⟩ := setSlot_ok hn
  rw [h.memory, hj, Memory.set_above, hl'] at hl
  cases hl
  obtain rfl := Memory.set_ok hl'
  exact ⟨rfl, rfl, { h with memory := rfl, capacity := h.capacity }⟩

/-- Both enter a method, above what is on their stacks. -/
theorem parallel_enter (d : Method) (args : List Value) :
    m.Parallel i Eq (enter d j args : Exec σ Unit) (enter d j' args) := by
  constructor
  intro k n _ _ s _ _ _ _ h hk hn
  obtain ⟨f, l, hf, hf'⟩ := h.active
  obtain ⟨_, p, q, hb, hp, hq, rfl, rfl⟩ := enter_ok hk
  obtain ⟨_, p', q', hb', hp', hq', rfl, rfl⟩ := enter_ok hn
  rw [hf'] at hb
  rw [hf] at hb'
  cases hb
  cases hb'
  -- The frames are at the end of the stack, with slots of the caller below or without.
  rw [h.memory] at hp
  change (n.memory.above m.memory.stack).push (m.memory.stack.size + f.base + f.size) _ = _ at hp
  change passArgs (m.memory.stack.size + f.base + f.size) _ _ _ = _ at hq
  rw [Nat.add_assoc] at hp hq
  obtain ⟨_, hp'', rfl⟩ := Memory.push_above h.capacity hp
  rw [hp'] at hp''
  cases hp''
  rw [passArgs_above, hq'] at hq
  cases hq
  obtain ⟨_, rfl, _⟩ := passArgs_keeps hq'
  refine ⟨rfl, rfl, { h with
    next := rfl
    memory := rfl
    frames := ?_
    rooted := .inner rfl h.rooted
    capacity := (Memory.capacity_push hp').trans h.capacity }⟩
  rw [h.frames, hj]
  simp [hosted, h.next, Nat.add_assoc]

end SameSlot

theorem parallel_jump (p : Program) (j : UInt64) :
    m.Parallel i Eq (jump p j : Exec σ Unit) (jump p j) := by
  rw [jump]
  dsimp only
  split
  · exact .throw_left _ _
  · exact .modify fun k n h => { h with next := rfl }

theorem parallel_window (o : Opcode) (a l : UInt64) :
    m.Parallel i m.SameSlot (window o a l : Exec σ Nat) (window o a l) := by
  refine .bind ((hosting σ m i).resolve a) fun r r' hr => ?_
  subst hr
  cases r with
  | stack j =>
    dsimp only
    split
    · exact .throw_left _ _
    · exact .bind (parallel_stackIndex _ _) fun _ _ _ => parallel_stackIndex j a
  | _ => exact .throw_left _ _

/-- Both call a method of the same program. -/
theorem parallel_call (o : Opcode) (p : Program) (a j l : UInt64) :
    m.Parallel i Eq (Exec.call o p a j l : Exec σ Unit) (Exec.call o p a j l) := by
  rw [Exec.call_eq]
  split
  · exact .throw_left _ _
  next d _ =>
  dsimp only
  split
  · exact .throw_left _ _
  refine (hosting σ m i).bind (parallel_charge _ _) fun _ => ?_
  refine (hosting σ m i).bind parallel_checkDepth fun _ => ?_
  refine .bind (parallel_window o a l) fun _ _ hj => ?_
  exact (hosting σ m i).bind (parallel_arguments hj _) fun args => parallel_enter hj d args

/-- All that an instruction does apart from the storage is parallel. -/
theorem locals_hosting : (hosting σ m i).Locals where
  onOperands f := by
    refine .get fun k n h => ?_
    rw [h.operands]
    refine (hosting σ m i).bind (.modify fun k n h => ?_) fun _ => (hosting σ m i).pure _
    exact { h with operands := rfl }
  constant j a := by
    refine .get fun k n h => ?_
    rw [h.memory, Memory.constant_above]
    exact (hosting σ m i).check (.constant _ _ _)
  slot j a := .bind (parallel_stackIndex j a) fun _ _ h => parallel_slot h a
  setSlot j v a := .bind (parallel_stackIndex j a) fun _ _ h => parallel_setSlot h v a
  jump := parallel_jump
  call := parallel_call

section Runs

variable (b : Backend σ)

/-- Every request is made by both alike. -/
theorem asks_hosting : (hosting σ m i).Asks b b where
  get hf := .get fun k n h => hf k n h.contract
  ask := parallel_ask b
  charge := parallel_charge
  guard := parallel_guard

/-- A host and its guest call the same machines. What the host has left for them is more,
    but all that they need is left to the guest. -/
theorem parallel_delegate (c : Address) (p : Program) (j : UInt64) (args : List Value) :
    m.Parallel i Eq (delegate (Exec.run b) c p j args) (delegate (Exec.run b) c p j args) := by
  constructor
  intro k n _ _ s _ _ _ _ h hk hn
  have hc : callee k c p = callee n c p := by
    have hd : k.depth + k.frames.length = n.depth + n.frames.length := by
      rw [h.depth, h.frames, List.length_append, List.length_map]
      omega
    rw [callee, callee, h.constantOnly, h.registry, hd]
  have ht := call_tighter b (.index j) args (m := callee n c p) rfl h.credits.remaining_le s
  obtain ⟨hq, hu⟩ := call_conserved (b := b) (m := callee n c p) rfl (.index j) args
    n.credits.remaining s
  rw [delegate_apply, ← Machine.call_eq, hc] at hk
  rw [delegate_apply, ← Machine.call_eq] at hn
  dsimp only at ht
  generalize (callee n c p).call b (.index j) args k.credits.remaining s = x at hk ht
  generalize (callee n c p).call b (.index j) args n.credits.remaining s = y at hn ht hq hu
  obtain ⟨⟨_ | _, q⟩, u⟩ := x
  · cases hk
  cases hk
  rcases ht with ⟨hr, _⟩ | ⟨_, l, rfl⟩
  · -- The guest would have run out of credits.
    obtain ⟨⟨_ | _, q'⟩, u'⟩ := y
    · cases hn
    · cases hr
  · cases hn
    have ha := h.credits.absorb (j := { q.credits with budget := l }) hq hu
    exact ⟨rfl, rfl, { h with credits := ha }⟩

/-- Both call another contract, at the same depth. -/
theorem parallel_callContract (o : Opcode) (a j l : UInt64) :
    m.Parallel i Eq (callContract o (Exec.run b) a j l) (callContract o (Exec.run b) a j l) := by
  refine .bind (parallel_window o a l) fun _ _ hs => ?_
  refine (hosting σ m i).bind (parallel_slot hs a) fun v => ?_
  refine (hosting σ m i).bind ((hosting σ m i).address o v) fun c => ?_
  refine (hosting σ m i).bind (parallel_charge _ _) fun _ => ?_
  refine (hosting σ m i).bind parallel_checkDepth fun _ => .get fun k n h => ?_
  rw [h.registry]
  split
  · exact .throw_left _ _
  · refine (hosting σ m i).bind (parallel_arguments hs _) fun args => ?_
    exact (hosting σ m i).bind (parallel_delegate b c _ j args) fun v => parallel_setSlot hs v a

/-- A host and its guest go on in parallel, but for returns. -/
theorem parallel_perform (p : Program) {o : Opcode} (ho : o ≠ .ret) (l : Vector Operand 3) :
    m.Parallel i Eq (perform b (Exec.run b) (p, o, l)) (perform b (Exec.run b) (p, o, l)) := by
  have hc := (asks_hosting (m := m) (i := i) b).requests.changes locals_hosting
  rw [perform]
  dsimp only
  split
  · next hm => exact hc.mutate o l _ _ p hm fun _ => (asks_hosting b).newMap .newmap
  · next hm =>
    refine (hosting σ m i).bind (locals_hosting.fill l) fun _ => ?_
    exact hc.toParts.execute o p (by simpa using hm) (fun hr => absurd hr ho)
      (parallel_callContract b .xcall)

variable {b} {k n k' n' : Machine} {s t t' : σ}

/-- A host and its guest return in the same way, unless the guest has finished: then the
    host returns to the caller. -/
theorem Hosts.ret (h : m.Hosts i k n) (hk : Exec.ret k s = ((.ok (), k'), t))
    (hn : Exec.ret n s = ((.ok (), n'), t')) :
    t' = t ∧ (m.Hosts i k' n' ∨ m.Served i k' n') := by
  obtain ⟨f, l, hf, hf'⟩ := h.active
  obtain ⟨rfl, _, _, hg, hk⟩ := ret_ok hk
  obtain ⟨rfl, _, _, hg', hn⟩ := ret_ok hn
  rw [hf'] at hg
  rw [hf] at hg'
  cases hg
  cases hg'
  have hr := h.rooted
  rw [hf] at hr
  rw [h.memory] at hk
  refine ⟨rfl, ?_⟩
  obtain ⟨hi, _⟩ | ⟨j, v, w, hj, hv, hw, rfl⟩ := hk
  · cases hi
  change (n.memory.above m.memory.stack).slot (m.memory.stack.size + f.base) _ = _ at hv
  change ((n.memory.above m.memory.stack).pop (m.memory.stack.size + f.base)).set _ _ _ = _ at hw
  rw [Memory.slot_above] at hv
  rw [Memory.pop_above] at hw
  cases hr with
  | outermost hb hz ho =>
    -- The guest has finished, and the slot of the host's caller gets its result.
    obtain rfl := Memory.set_ok hw
    rw [hosted, ho] at hj
    cases hj
    obtain ⟨_, rfl⟩ | ⟨_, _, _, hi, _⟩ := hn
    · refine .inr ⟨rfl, ⟨v, ?_, ?_⟩, rfl, ?_, h.credits⟩
      · rw [result, if_pos ⟨rfl, h.returns⟩, stackValue_eq (f := f) (by rw [hf]; rfl) 0, if_pos hz]
        exact Memory.slot_ok hv
      · rw [Memory.above, Memory.pop, hb]
        simp
      · dsimp only [hosted]
        rw [ho]
        rfl
    · rw [ho] at hi
      cases hi
  | inner ho hr =>
    obtain ⟨hi, _⟩ | ⟨j', v', w', hi, hv', hw', rfl⟩ := hn
    · rw [hi] at ho
      cases ho
    · rw [hosted, hi] at hj
      cases hj
      rw [hv'] at hv
      cases hv
      dsimp only [Option.elim] at hw
      rw [Memory.set_above, hw'] at hw
      cases hw
      obtain rfl := Memory.set_ok hw'
      refine .inl { h with
        next := ?_, memory := rfl, frames := rfl, rooted := hr, capacity := h.capacity }
      rw [hosted, hi]
      rfl

/-- A host and its guest take the same turn. -/
theorem Hosts.turn (h : m.Hosts i k n) (hk : Exec.turn b k s = ((.ok (), k'), t))
    (hn : Exec.turn b n s = ((.ok (), n'), t')) :
    t' = t ∧ (m.Hosts i k' n' ∨ m.Served i k' n') := by
  have hk := marked_ok hk
  have hn := marked_ok hn
  rw [step_eq] at hk hn
  obtain ⟨⟨p, o, l⟩, q, _, hk, hk'⟩ := bind_ok hk
  obtain ⟨⟨p', o', l'⟩, q', _, hn, hn'⟩ := bind_ok hn
  obtain ⟨hp, ⟨d, hd, ho, hl⟩, c, hc, rfl, rfl⟩ := fetch_ok hk
  obtain ⟨hp', ⟨d', hd', ho', hl'⟩, c', hc', rfl, rfl⟩ := fetch_ok hn
  -- What they fetch is the same instruction.
  rw [h.program, hp'] at hp
  cases hp
  rw [h.next, hd'] at hd
  cases hd
  rw [ho'] at ho
  cases ho
  subst hl hl'
  have h : m.Hosts i { k with offset := k.next, next := k.next + 1, credits := c }
      { n with offset := n.next, next := n.next + 1, credits := c' } :=
    { h with next := by rw [h.next], credits := h.credits.charge hc hc' }
  by_cases hr : o = .ret
  · subst hr
    exact (h.holding (.of d.operands) (.of d.operands)).ret hk' hn'
  · -- What was in the buffer of the host does not matter.
    have hk' := ((perform_holding _ n.operands _ (Exec.run b) _).eq_of_ok hk').trans hk'
    have h : m.InStep i _ _ := { h.holding n.operands n.operands with operands := rfl }
    obtain ⟨_, rfl, h⟩ := (parallel_perform b p hr _).ends h hk' hn'
    exact ⟨rfl, .inl h.toHosts⟩

/-- A host and its guest go on in parallel, until the host returns to the caller. -/
theorem served_of_until (h : m.Hosts i k n)
    (hk : Until b (·.frames.length = m.frames.length) k s k' t)
    (hn : Until b (·.status ≠ .running) n s n' t') : t' = t ∧ m.Served i k' n' := by
  induction hn generalizing k with
  | done hp => exact absurd h.running hp
  | turn _ _ ht hn ih =>
    cases hk with
    | done hl =>
      obtain ⟨f, l, _, hf⟩ := h.active
      rw [hf] at hl
      simp at hl
      omega
    | turn _ _ ht' hk =>
      obtain ⟨rfl, h | h⟩ := h.turn ht' ht
      · exact ih h hk
      · -- The host is where it was called from, and the guest has finished.
        cases hk with
        | turn hl => exact absurd (congrArg List.length h.frames) hl
        | done =>
          cases hn with
          | turn _ hr => exact absurd (h.finished.symm.trans hr) (by decide)
          | done => exact ⟨rfl, h⟩

end Runs

end Machine

end CreditMachine
