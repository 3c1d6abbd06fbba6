import CreditMachine.Proofs.Parallel

/-!
# Calls of a contract by itself

A method can be called in the frames of the machine, with `CALL`, or on a machine of its
own, with `XCALL`, if the registry has the program for the contract that executes it. If
both calls return then they come to the same (`Machine.call_agrees`): the frame of the caller
and the storage are the same afterwards, and the second way costs as much more as the
instruction does. What the new machine executes, the old one hosts from when it has entered
the method (`Machine.hosts_of_enter`).
-/

namespace CreditMachine

/-! ### Instructions in another place -/

namespace Exec

variable {σ : Type} (b : Backend σ)

/-- Executes an instruction in the place of the next one of the program. -/
def obey (o : Opcode) (l : Vector Operand 3) : Exec σ Unit := do
  let m ← get
  match m.program with
  | none => throw .notRunning
  | some p =>
    modify fun m => { m with offset := m.next, next := m.next + 1 }
    charge .opcode o.cost
    perform b (run b) (p, o, l)

/-- In its own place, an instruction is executed by a step. -/
theorem step_eq_obey {m : Machine} {p : Program} {d : Instruction} {o : Opcode}
    (hp : m.program = some p) (hd : p.code[m.next]? = some d) (ho : Opcode.ofCode? d.code = some o)
    (s : σ) : step b (run b) m s = obey b o d.operands m s := by
  rw [step, obey, get_apply, get_apply, hp]
  dsimp only
  rw [hd]
  dsimp only
  rw [ho]
  rfl

variable {b} {m m' : Machine} {s s' : σ} {o : Opcode} {p : Program}

/-- An instruction that is obeyed has been charged, and is then performed. -/
theorem obey_ok {l : Vector Operand 3} {u : Unit} (hp : m.program = some p)
    (h : obey b o l m s = ((.ok u, m'), s')) : ∃ c, m.credits.charge .opcode o.cost = .ok c ∧
      perform b (run b) (p, o, l) { m with offset := m.next, next := m.next + 1, credits := c } s =
        ((.ok u, m'), s') := by
  rw [obey, get_apply, hp] at h
  dsimp only at h
  rw [bind_apply, modify_apply] at h
  dsimp only at h
  rw [bind_apply, charge_apply] at h
  dsimp only at h
  cases hc : m.credits.charge .opcode o.cost with
  | error e =>
    rw [hc] at h
    cases h
  | ok c =>
    rw [hc] at h
    exact ⟨c, rfl, h⟩

end Exec

namespace Machine

open Exec

variable {σ : Type} {b : Backend σ} {m k : Machine} {p : Program} {d : Method} {i : Nat}
  {s t : σ}

/-- A machine that has entered a method is the host of one that has begun with it. -/
theorem hosts_of_enter (hm : m.Tidy) (hc : m.credits.Conserved) (hp : m.program = some p)
    {j n : UInt64} (hn : n.toNat ≤ m.credits.remaining.toNat) (hd : p.methods[j.toNat]? = some d)
    (hr : d.returns) {args : List Value} (hk : enter d i args m s = ((.ok (), k), t))
    {g : Machine} (hg : (callee m m.contract p).begin (.index j) args n = (.ok (), g)) :
    t = s ∧ m.Hosts i k g := by
  rcases begin_cases (m := callee m m.contract p) rfl (.index j) args n with
    ⟨_, ha, _⟩ | ⟨_, _, ha⟩ | ⟨q, e, l, l', hq, he, _, hl, hl', ha⟩ <;> rw [ha] at hg
  · cases hg
  · cases hg
  cases hg
  cases hq
  rw [target, hd] at he
  cases he
  obtain ⟨f, l₁, l₂, hf, h₁, h₂, rfl, rfl⟩ := enter_ok hk
  -- The frame of the method is above the whole stack.
  have hb := hm.active hf
  have hv : m.memory = (callee m m.contract p).memory.above m.memory.stack := by
    change _ = (⟨p.constants, m.memory.stack ++ #[], stackCapacity⟩ : Memory)
    rw [Array.append_empty, ← hm.constants p hp, ← hm.capacity]
  rw [hb] at h₁ h₂ ⊢
  have h₁ : ((callee m m.contract p).memory.above m.memory.stack).push
      (m.memory.stack.size + 0) d.frame = .ok l₁ := by
    rw [← hv]
    exact h₁
  obtain ⟨_, hl₁, rfl⟩ := Memory.push_above (i := 0) rfl h₁
  rw [hl] at hl₁
  cases hl₁
  change passArgs (m.memory.stack.size + 0) _ _ _ = _ at h₂
  rw [passArgs_above, hl'] at h₂
  cases h₂
  have hs : l'.capacity = stackCapacity := by
    obtain ⟨_, rfl, _⟩ := passArgs_keeps hl'
    exact Memory.capacity_push hl
  have hz : 0 < d.frame := Nat.lt_of_lt_of_le (Nat.succ_pos _) (Nat.le_max_right _ _)
  exact ⟨rfl,
    { contract := rfl
      constantOnly := rfl
      registry := rfl
      program := hp
      next := rfl
      depth := rfl
      memory := rfl
      frames := rfl
      credits := Credits.shares_new hc hn
      rooted := .outermost rfl hz rfl
      capacity := hs
      running := rfl
      returns := hr }⟩

/-- A method comes to the same in frames of a machine and on a machine of its own, if what
    is left for it there is not more. -/
theorem served_of_delegate (hm : m.Tidy) (hp : m.program = some p) {j : UInt64}
    (hd : p.methods[j.toNat]? = some d) (hr : d.returns) {c e : Credits} (hc : c.Conserved)
    (he : e.remaining.toNat ≤ c.remaining.toNat) {args : List Value} {k k' m' : Machine}
    {t t' s' : σ} {v : Value} (hk : enter d i args { m with credits := c } s = ((.ok (), k), t))
    (hu : Until b (·.frames.length = m.frames.length) k t k' t')
    (hv : delegate (Exec.run b) m.contract p j args { m with credits := e } s =
      ((.ok v, m'), s')) :
    ∃ n : Machine, t' = s' ∧ ({ m with credits := c } : Machine).Served i k' n ∧
      v = n.result.getD .nil ∧ n.credits.used.toNat ≤ e.remaining.toNat ∧
      m' = { m with credits := e.absorb n.credits.used n.credits.profile } := by
  obtain ⟨g, n, hg, hx, hl, rfl, rfl⟩ := delegate_ok hv
  obtain ⟨rfl, hh⟩ := hosts_of_enter (m := { m with credits := c })
    ⟨hm.capacity, hm.constants, hm.frames⟩ hc hp he hd hr hk hg
  have hw := hh.credits.guest.within
  obtain ⟨rfl, hs⟩ := served_of_until hh hu (until_of_run hh.running hw hx)
  exact ⟨n, rfl, hs, rfl, hl, rfl⟩

/-- A method of the program that a contract calls by itself, with `CALL` or with `XCALL`. If
    both calls return, then they return to the same instruction of the caller, with the same
    values in its slots. The storage is the same, and so are the credits that were charged,
    but for the instructions: `XCALL` costs 150 more than `CALL`. -/
theorem call_agrees {m m₀ m₁ m₂ : Machine} {s s₀ s₁ s₂ : σ} (hm : m.Reachable b)
    (hp : m.program = some p) (hc : m.registry m.contract = some p) {a j l : UInt64}
    (ha : Region.ofAddress? a = some (.stack i))
    (hv : m.stackValue i = some (.bytes m.contract.bytes)) (hd : p.methods[j.toNat]? = some d)
    (hr : d.returns) (h₀ : obey b .call #v[.addr a, .imm j, .imm l] m s = ((.ok (), m₀), s₀))
    (h₁ : Until b (·.frames.length = m.frames.length) m₀ s₀ m₁ s₁)
    (h₂ : obey b .xcall #v[.addr a, .imm j, .imm l] m s = ((.ok (), m₂), s₂)) :
    (m₁.frames = m.frames ∧ m₂.frames = m.frames ∧ m₁.next = m₂.next ∧
        ∀ i, m₁.stackValue i = m₂.stackValue i) ∧
      s₁ = s₂ ∧
      (∀ g, g ≠ .opcode → m₁.credits.profile.get g = m₂.credits.profile.get g) ∧
      m₂.credits.used.toNat = m₁.credits.used.toNat + 150 := by
  obtain ⟨c, hc₁, hi⟩ := obey_ok hp h₀
  rw [perform_call] at hi
  obtain ⟨f, c', args, hf, hc₂, hs, hk⟩ := call_ok ha hd hi
  obtain ⟨e, he₁, hi⟩ := obey_ok hp h₂
  rw [perform_xcall] at hi
  obtain ⟨f', e', args', v, k, w, hf', he₂, hs', hv, hw, rfl⟩ := callContract_ok
    (m := holding { m with offset := m.next, next := m.next + 1, credits := e } _) ha hv hc hi
  obtain rfl : f' = f := Option.some.inj (hf'.symm.trans hf)
  obtain rfl : args' = args := Except.ok.inj (hs'.symm.trans hs)
  -- What has been charged when the method is entered.
  have hx : Opcode.call.cost.toNat + 150 = Opcode.xcall.cost.toNat := by decide
  obtain ⟨hc₁, hb₁, hu₁, hg₁⟩ := hm.conserved.charge hc₁
  obtain ⟨hc₂, hb₂, hu₂, hg₂⟩ := hc₁.charge hc₂
  obtain ⟨he₁, hb₁', hu₁', hg₁'⟩ := hm.conserved.charge he₁
  obtain ⟨he₂, hb₂', hu₂', hg₂'⟩ := he₁.charge he₂
  have hl : e'.remaining.toNat ≤ c'.remaining.toNat := by
    rw [Credits.toNat_remaining he₂.within, Credits.toNat_remaining hc₂.within, hb₂', hb₂, hb₁',
      hb₁]
    omega
  have ht := hm.tidy.still m.credits m.next (m.next + 1)
    ⟨#v[.addr a, .imm j, .imm l], 3⟩ m.status
  obtain ⟨n, rfl, hn, rfl, hq, rfl⟩ := served_of_delegate ht hp hd hr hc₂ hl hk h₁ hv
  -- What was charged for the method.
  obtain ⟨_, hu, hg⟩ := he₂.absorb hn.credits.guest hq
  obtain ⟨v, hv, hk⟩ := hn.result
  obtain rfl := Memory.set_ok hw
  refine ⟨⟨hn.frames, rfl, hn.next, fun i => ?_⟩, rfl, fun g ho => ?_, ?_⟩
  · rw [stackValue, stackValue, hn.frames, hk, hv]
    rfl
  · apply UInt64.toNat_inj.1
    rw [hn.credits.profile, hg, hg₂, hg₁, hg₂', hg₁', if_neg ho, if_neg ho]
  · have := hn.credits.used
    dsimp only at this ⊢
    omega

/-- A method of the program, called in both ways. -/
theorem call_agrees_calling :
    let l : Vector Operand 3 := #v[.stack 1, .imm 1, .imm 1]
    let go (y : (Except Abort Unit × Machine) × Ledger) := Exec.turn Ledger.backend y.1.2 y.2
    let y := obey Ledger.backend .call l calling .sample
    let z := go (go (go (go y)))
    let x := obey Ledger.backend .xcall l calling .sample
    (∀ i, z.1.2.stackValue i = x.1.2.stackValue i) ∧ z.2 = x.2 ∧
      z.1.2.credits.used = 331 ∧ x.1.2.credits.used.toNat = z.1.2.credits.used.toNat + 150 := by
  intro l go y z x
  -- What is executed goes on.
  have he := @goes_on Ledger
  have hu : Until Ledger.backend (·.frames.length = calling.frames.length) y.1.2 y.2 z.1.2 z.2 := by
    refine .turn (by decide +kernel) (by decide +kernel) (he (go y) (by decide +kernel)) ?_
    refine .turn (by decide +kernel) (by decide +kernel) (he (go (go y)) (by decide +kernel)) ?_
    refine .turn (by decide +kernel) (by decide +kernel)
      (he (go (go (go y))) (by decide +kernel)) ?_
    refine .turn (by decide +kernel) (by decide +kernel) (he z (by decide +kernel)) ?_
    exact .done (by decide +kernel)
  obtain ⟨⟨_, _, _, hv⟩, hs, _, hc⟩ := call_agrees (i := 1) (d := ⟨"body", 5, 3, 1, true⟩)
    reachable_calling (p := relay) rfl rfl (by decide +kernel) (by decide +kernel)
    (by decide +kernel) rfl (he y (by decide +kernel)) hu (he x (by decide +kernel))
  exact ⟨hv, hs, by decide +kernel, hc⟩

end Machine

end CreditMachine
