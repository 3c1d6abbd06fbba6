import CreditMachine.Proofs.Buffer
import CreditMachine.Proofs.Conservation

/-!
# Machines that are used again

The same machine may execute one program after the other. Before a program is loaded, anything may
have happened to it: executions have finished, or have aborted in the midst of their calls, or were
refused, or have begun and were never run (`Machine.Used`). They leave values on the stack, frames,
credits, the place where they have stopped, and the operands of an instruction in the buffer, of
which some may have been taken. What they never change is what the machine was made with
(`Machine.Fixed`).

With the program, the constants are replaced, and almost all that was left is when an execution
begins: its frame is the first one, and keeps no slot of the stack. Only the buffer is as it was
(`Machine.Made.begin_eq`), and what it holds is never looked at before it is filled again
(`Exec.run_holding`). So the execution is that of a new machine (`Machine.Used.call_fresh`).
-/

namespace CreditMachine

/-! ### What executions keep -/

/-- An execution goes from the machine `m` to `k`: they differ at most in their stack and frames,
    in what has been spent, and in the place that has been reached. -/
structure Machine.Fixed (m k : Machine) : Prop where
  contract : k.contract = m.contract
  constantOnly : k.constantOnly = m.constantOnly
  registry : k.registry = m.registry
  depth : k.depth = m.depth
  program : k.program = m.program
  returns : k.returns = m.returns
  constants : k.memory.constants = m.memory.constants
  capacity : k.memory.capacity = m.memory.capacity

namespace Machine.Fixed

variable {m j k : Machine}

theorem refl (m : Machine) : m.Fixed m := ⟨rfl, rfl, rfl, rfl, rfl, rfl, rfl, rfl⟩

theorem of_stack (m : Machine) (stack : Array Value) (frames : List Frame) (credits : Credits)
    (next offset : Nat) (operands : Operands) (status : Status) : m.Fixed { m with
      memory := { m.memory with stack }, frames, credits, next, offset, operands, status } :=
  ⟨rfl, rfl, rfl, rfl, rfl, rfl, rfl, rfl⟩

theorem trans (h : m.Fixed j) (h' : j.Fixed k) : m.Fixed k where
  contract := h'.contract.trans h.contract
  constantOnly := h'.constantOnly.trans h.constantOnly
  registry := h'.registry.trans h.registry
  depth := h'.depth.trans h.depth
  program := h'.program.trans h.program
  returns := h'.returns.trans h.returns
  constants := h'.constants.trans h.constants
  capacity := h'.capacity.trans h.capacity

end Machine.Fixed

namespace Memory

variable {k l : Memory}

/-- The first frame of a stack takes nothing of what was there. -/
theorem push_zero (hc : k.constants = l.constants) (hk : k.capacity = l.capacity) (size : Nat) :
    k.push 0 size = l.push 0 size := by
  have hs (a : Array Value) : a.take 0 = #[] := by simp
  rw [push, push, hs, hs, hk, hc]

end Memory

namespace Discipline

open Exec Machine

variable {σ : Type}

/-- Machines stay what they were made for. -/
def fixing (σ : Type) : Discipline σ where
  Goes m _ k _ := m.Fixed k
  Stops m _ k _ := m.Fixed k
  refl m _ := .refl m
  trans h h' := h.trans h'
  stops h := h
  after h h' := h.trans h'

theorem fixing_setSlot (i : Nat) (v : Value) (a : UInt64) : (fixing σ).Kept (setSlot i v a) := by
  refine kept_setSlot fun m k _ hk => ?_
  obtain rfl := Memory.set_ok hk
  exact .of_stack m _ m.frames m.credits m.next m.offset m.operands m.status

theorem fixing_enter (d : Method) (i : Nat) (args : List Value) :
    (fixing σ).Kept (enter d i args) := by
  refine kept_enter fun m f k k' _ _ hk hk' => ?_
  obtain ⟨_, rfl⟩ := push_keeps hk
  obtain ⟨_, rfl, _⟩ := passArgs_keeps hk'
  exact .of_stack m _ _ m.credits _ m.offset m.operands m.status

theorem fixing_ret : (fixing σ).Kept ret := by
  refine kept_ret (fun m _ _ _ _ => ?_) (fun m _ _ _ _ => ?_) fun m _ _ _ _ _ _ _ hk => ?_
  · exact .of_stack m m.memory.stack m.frames m.credits m.next m.offset m.operands _
  · exact .of_stack m _ _ m.credits m.next m.offset m.operands m.status
  · obtain rfl := Memory.set_ok hk
    exact .of_stack m _ _ m.credits _ m.offset m.operands m.status

/-- Whatever instructions do, the machine is made as it was. -/
theorem steady_fixing : (fixing σ).Steady where
  steady m _ credits offset next operands _ :=
    .of_stack m m.memory.stack m.frames credits next offset operands m.status
  program h := h.program
  marked {_ _ k _} h :=
    h.trans (.of_stack k k.memory.stack k.frames k.credits k.next k.offset k.operands .aborted)
  setSlot := fixing_setSlot
  enter := fixing_enter
  ret := fixing_ret

end Discipline

namespace Machine

open Discipline

variable {σ : Type} {b : Backend σ} {c : Address} {q : Bool} {d : Nat} {registry : Registry}
  {m : Machine}

theorem fixed_turn (b : Backend σ) (m : Machine) (s : σ) : m.Fixed (Exec.turn b m s).1.2 :=
  ((steady_fixing.rules b).turn m s).stopped

/-- A run leaves a machine made as it was, however it ends. -/
theorem fixed_run (b : Backend σ) (m : Machine) (s : σ) : m.Fixed (m.run b s).1.2 :=
  ((steady_fixing.rules b).run m s).stopped

/-! ### Use -/

/-- A machine that was made for the contract `c`, to read only or not (`q`), for calls at the depth
    `d`, has been used. It has the registry `registry` by now. -/
inductive Used (b : Backend σ) (c : Address) (q : Bool) (d : Nat) : Registry → Machine → Prop
  | new (registry : Registry) : Used b c q d registry (new c q registry d)
  /-- It gets another registry. -/
  | connect {registry : Registry} {m : Machine} (registry' : Registry) :
    Used b c q d registry m → Used b c q d registry' { m with registry := registry' }
  /-- A program is loaded, an execution begins or is refused, or one instruction is executed. -/
  | step {registry : Registry} {m m' : Machine} :
    Used b c q d registry m → m.Step b m' → Used b c q d registry m'
  /-- It runs, whether it can or not, until it returns or aborts. -/
  | run {registry : Registry} {m : Machine} (s : σ) :
    Used b c q d registry m → Used b c q d registry (m.run b s).1.2

/-- An execution begins, and runs if it is not refused. -/
theorem Used.call (h : Used b c q d registry m) (e : Entry) (args : List Value) (n : UInt64)
    (s : σ) : Used b c q d registry (m.call b e args n s).1.2 := by
  have hb := h.step (.begin m e args n)
  rw [Machine.call]
  split
  · next hk =>
    rw [hk] at hb
    exact hb.run s
  · next hk =>
    rw [hk] at hb
    exact hb

/-- The machine `m` has what a new one has that no program and no execution brings along. -/
structure Made (c : Address) (q : Bool) (registry : Registry) (d : Nat) (m : Machine) : Prop where
  contract : m.contract = c
  constantOnly : m.constantOnly = q
  registry : m.registry = registry
  depth : m.depth = d
  capacity : m.memory.capacity = stackCapacity

theorem Fixed.made {k : Machine} (h : m.Fixed k) (hm : m.Made c q registry d) :
    k.Made c q registry d where
  contract := h.contract.trans hm.contract
  constantOnly := h.constantOnly.trans hm.constantOnly
  registry := h.registry.trans hm.registry
  depth := h.depth.trans hm.depth
  capacity := h.capacity.trans hm.capacity

/-- A program that is loaded, an execution that begins and a turn leave a machine made as it was. -/
theorem Made.step (h : m.Made c q registry d) {k : Machine} (hk : m.Step b k) :
    k.Made c q registry d := by
  cases hk with
  | load p => exact ⟨h.contract, h.constantOnly, h.registry, h.depth, h.capacity⟩
  | begin e args n =>
    rcases begin_cases h.capacity e args n with ⟨_, ha, _⟩ | ⟨_, _, ha⟩ |
      ⟨_, _, _, _, _, _, _, hk, hk', ha⟩ <;> rw [ha]
    · exact h
    · exact ⟨h.contract, h.constantOnly, h.registry, h.depth, h.capacity⟩
    · obtain ⟨_, rfl⟩ := push_keeps hk
      obtain ⟨_, rfl, _⟩ := passArgs_keeps hk'
      exact ⟨h.contract, h.constantOnly, h.registry, h.depth, h.capacity⟩
  | turn s => exact (fixed_turn b m s).made h

/-- By induction on the use of a machine: it is made as when it was new. -/
theorem Used.made (h : Used b c q d registry m) : m.Made c q registry d := by
  induction h with
  | new => exact ⟨rfl, rfl, rfl, rfl, rfl⟩
  | connect _ _ ih => exact ⟨ih.contract, ih.constantOnly, rfl, ih.depth, ih.capacity⟩
  | step _ hk ih => exact ih.step hk
  | run s _ ih => exact (fixed_run b _ s).made ih

/-! ### Beginnings -/

/-- Executions of the same program begin with the same frame, whatever was there. Nothing else is
    left when they have begun, but for what is in the buffer. -/
theorem Made.begin_eq {k : Machine} (h : m.Made c q registry d) (hk : k.Made c q registry d)
    (hp : m.program = k.program) (hc : m.memory.constants = k.memory.constants) (e : Entry)
    (args : List Value) (n : UInt64) :
    (m.begin e args n).1 = (k.begin e args n).1 ∧
      ((m.begin e args n).1 = .ok () →
        (m.begin e args n).2 = (k.begin e args n).2.holding m.operands) := by
  have hs := Memory.push_zero hc (h.capacity.trans hk.capacity.symm)
  obtain ⟨_, _, _, _, _, _, _, _, _, _, _, _, _⟩ := m
  obtain ⟨_, _, _, _, _, _, _, _, _, _, _, _, _⟩ := k
  obtain ⟨rfl, rfl, rfl, rfl, -⟩ := h
  obtain ⟨rfl, rfl, rfl, rfl, -⟩ := hk
  dsimp only at hp hs
  subst hp
  rw [begin, begin]
  dsimp only
  -- Both are refused for the same reason, or both begin: the first frame is the same.
  split
  · exact ⟨rfl, fun h => by cases h⟩
  split
  · exact ⟨rfl, fun h => by cases h⟩
  split
  · exact ⟨rfl, fun h => by cases h⟩
  rw [hs]
  split
  · exact ⟨rfl, fun h => by cases h⟩
  split
  · exact ⟨rfl, fun h => by cases h⟩
  · exact ⟨rfl, fun _ => rfl⟩

/-- If an execution begins on machines of the same make, then it is the same on both. -/
theorem Made.call_alike {k : Machine} (h : m.Made c q registry d) (hk : k.Made c q registry d)
    (hp : m.program = k.program) (hc : m.memory.constants = k.memory.constants) {e : Entry}
    {args : List Value} {n : UInt64} (ho : (m.begin e args n).1 = .ok ()) (s : σ) :
    Exec.Alike m.operands (k.call b e args n s) (m.call b e args n s) := by
  obtain ⟨he, hb⟩ := h.begin_eq hk hp hc e args n
  have hm : m.begin e args n = (k.holding m.operands).begin e args n := by
    rw [begin_holding, ← he, ← hb ho]
  have hm : m.call b e args n s = (k.holding m.operands).call b e args n s := by
    rw [Machine.call, Machine.call, hm]
  exact hm ▸ k.call_holding m.operands e args n s

/-- A machine that is used again. Whatever has happened to it, once it has loaded a program an
    execution begins as on a new machine for the same contract, or is refused as there. If it
    begins, then all is as there but for the operands that are left in the buffer, and these do
    not matter: whatever the storage, the run ends in the same way, with the same storage, and
    with a machine that is in the same state, has spent the same, has the same result and the
    same slots, and reports the same. If it succeeds then not even the buffer differs. -/
theorem Used.call_fresh (h : Used b c q d registry m) (p : Program) (e : Entry) (args : List Value)
    (n : UInt64) :
    let m' := m.load p
    let k := (Machine.new c q registry d).load p
    (m'.begin e args n).1 = (k.begin e args n).1 ∧
      ((m'.begin e args n).1 = .ok () →
        (m'.begin e args n).2 = { (k.begin e args n).2 with operands := m.operands } ∧
        ∀ s, let x := m'.call b e args n s
          let y := k.call b e args n s
          (x.1.1 = y.1.1 ∧ x.2 = y.2 ∧ (∃ v, x.1.2 = { y.1.2 with operands := v }) ∧
            (x.1.1 = .ok () → x = y)) ∧
          x.1.2.status = y.1.2.status ∧ x.1.2.credits = y.1.2.credits ∧
          x.1.2.result = y.1.2.result ∧ (∀ i, x.1.2.stackValue i = y.1.2.stackValue i) ∧
          (∀ a limit, x.1.2.report a limit = y.1.2.report a limit) ∧
          x.1.2.dump = y.1.2.dump) := by
  intro m' k
  have hm : m'.Made c q registry d := h.made.step (b := b) (.load m p)
  have hk : k.Made c q registry d := (Used.new (b := b) registry).made.step (b := b) (.load _ p)
  obtain ⟨he, hb⟩ := hm.begin_eq hk rfl rfl e args n
  refine ⟨he, fun ho => ⟨hb ho, fun s => ?_⟩⟩
  have ha := hm.call_alike (b := b) hk rfl rfl ho s
  obtain ⟨v, hv⟩ := ha.machine
  refine ⟨⟨ha.result, ha.storage, ⟨v, hv⟩, fun hx => ?_⟩, ?_⟩
  · have hy := ha.result.symm.trans hx
    exact ha.eq_of_ok (Prod.ext (Prod.ext hy rfl) rfl)
  · rw [hv]
    exact ⟨rfl, rfl, result_holding _ v, stackValue_holding _ v, report_holding _ v,
      dump_holding _ v⟩

/-- What is left of a machine when it has run, was refused an execution because of its frame, and
    has run another one, for which there may be too few credits. -/
def worn (m : Machine) : Machine :=
  (((m.run Ledger.backend .sample).1.2.begin (.offset 0 2000) [] 50).2.call Ledger.backend
    (.index 0) [] 300 .sample).1.2

/-- A machine that was used may be worn by one more run that aborts. -/
theorem Used.worn (h : Used Ledger.backend c q d registry m) :
    Used Ledger.backend c q d registry m.worn := by
  have hb := (h.run .sample).step (.begin _ (.offset 0 2000) [] 50)
  exact hb.call (.index 0) [] 300 .sample

/-- A machine with values, a frame, credits and operands of executions that did not come to an
    end. -/
theorem Used.call_fresh_worn :
    let registry : Registry := fun c => if c = ⟨7⟩ then some relay else none
    let m := starting.worn.load relay
    let k := (Machine.new ⟨7⟩ false registry 0).load relay
    (Used Ledger.backend ⟨7⟩ false 0 registry starting.worn ∧ starting.worn.status = .aborted ∧
        m.operands ≠ k.operands ∧ (m.begin (.index 0) [] 2000).1 = .ok ()) ∧
      m.call Ledger.backend (.index 0) [] 2000 .sample =
        k.call Ledger.backend (.index 0) [] 2000 .sample := by
  intro registry m k
  have hs : Used Ledger.backend ⟨7⟩ false 0 registry starting :=
    .step (.step (.new registry) (.load _ relay)) (.begin _ (.index 0) [] 2000)
  have ho : (m.begin (.index 0) [] 2000).1 = .ok () := by decide +kernel
  obtain ⟨-, hc⟩ := hs.worn.call_fresh relay (.index 0) [] 2000
  obtain ⟨⟨_, _, _, hx⟩, _⟩ := (hc ho).2 .sample
  exact ⟨⟨hs.worn, by decide +kernel, by decide +kernel, ho⟩, hx (by decide +kernel)⟩

end Machine

end CreditMachine
