import CreditMachine.Proofs.Inversion

/-!
# The buffer of operands

A machine fills its buffer before it takes any operand of an instruction, and each operand that
is taken has been put there for that instruction. What the buffer has held before, such as what
is left of an instruction that was aborted, is never looked at: a machine does the same whatever
that is (`Exec.Alike`), when it executes an instruction (`Exec.step_holding`), and when it runs
(`Exec.run_holding`), with all the runs nested in it (`Exec.delegate_holding`). Only a machine that
aborts before its first instruction is executed still holds it.
-/

namespace CreditMachine

namespace Machine

variable (m : Machine) (v : Operands)

/-- The machine with the operands `v` in its buffer. -/
def holding : Machine := { m with operands := v }

/-! Nothing that is asked of a machine when it has run depends on its buffer. -/

theorem result_holding : (m.holding v).result = m.result := rfl

theorem stackValue_holding (i : Nat) : (m.holding v).stackValue i = m.stackValue i := rfl

theorem report_holding (e : Abort) (limit : Nat) :
    (m.holding v).report e limit = m.report e limit := rfl

theorem dump_holding : (m.holding v).dump = m.dump := rfl

/-- An execution is begun, or refused, without a look at the buffer. -/
theorem begin_holding (e : Entry) (args : List Value) (n : UInt64) : (m.holding v).begin e args n =
    ((m.begin e args n).1, (m.begin e args n).2.holding v) := by
  rw [begin, begin]
  dsimp only [holding]
  split
  · rfl
  split
  · rfl
  split
  · rfl
  split
  · rfl
  split <;> rfl

end Machine

namespace Exec

variable {σ α β : Type}

/-- What is done on two machines that differ in their buffers, of which the second one holds `v`,
    comes to the same. Or else it aborts before the buffer is filled; then the machines still
    differ there, and only there. -/
inductive Alike (v : Operands) :
    (Except Abort α × Machine) × σ → (Except Abort α × Machine) × σ → Prop
  | same (a : (Except Abort α × Machine) × σ) : Alike v a a
  | early (e : Abort) (k : Machine) (s : σ) :
    Alike v ((.error e, k), s) ((.error e, k.holding v), s)

namespace Alike

variable {v : Operands} {a c : (Except Abort α × Machine) × σ}

theorem result (h : Alike v a c) : c.1.1 = a.1.1 := by cases h <;> rfl

theorem storage (h : Alike v a c) : c.2 = a.2 := by cases h <;> rfl

/-- The machines differ in their buffers at most. -/
theorem machine (h : Alike v a c) : ∃ w, c.1.2 = a.1.2.holding w := by
  cases h with
  | same => exact ⟨a.1.2.operands, rfl⟩
  | early => exact ⟨v, rfl⟩

/-- What goes on has filled the buffer. -/
theorem eq_of_ok (h : Alike v a c) {w : α} {k : Machine} {s : σ} (ha : a = ((.ok w, k), s)) :
    c = a := by
  cases h with
  | same => rfl
  | early => cases ha

/-- From where the buffers are the same, all is the same. -/
theorem bind {x : Exec σ α} {m k : Machine} {s t : σ} (h : Alike v (x m s) (x k t))
    (f : α → Exec σ β) : Alike v ((x >>= f) m s) ((x >>= f) k t) := by
  rw [bind_apply, bind_apply]
  generalize x m s = a at h
  generalize x k t = c at h
  cases h with
  | same => exact .same _
  | early e l u => exact .early e l u

/-- A mark is put on both machines or on neither. -/
theorem marked {x : Exec σ Unit} {m k : Machine} {s t : σ} (h : Alike v (x m s) (x k t)) :
    Alike v (marked x m s) (marked x k t) := by
  rw [marked_apply, marked_apply]
  generalize x m s = a at h
  generalize x k t = c at h
  cases h with
  | same => exact .same _
  | early e l u => exact .early e _ u

end Alike

variable {b : Backend σ} (m : Machine) (v : Operands) (s : σ)

/-- An instruction is fetched and charged without a look at the buffer. -/
theorem fetch_holding :
    fetch (m.holding v) s = (((fetch m s).1.1, (fetch m s).1.2.holding v), (fetch m s).2) := by
  rw [fetch, get_apply, get_apply, show (m.holding v).program = m.program from rfl,
    show (m.holding v).next = m.next from rfl]
  cases m.program with
  | none => rfl
  | some p =>
    dsimp only
    cases p.code[m.next]? with
    | none => rfl
    | some d =>
      dsimp only
      rw [bind_apply, bind_apply, modify_apply, modify_apply]
      cases Opcode.ofCode? d.code with
      | none => rfl
      | some o =>
        dsimp only
        rw [bind_apply, bind_apply, charge_apply, charge_apply,
          show (m.holding v).credits = m.credits from rfl]
        dsimp only
        cases m.credits.charge .opcode o.cost <;> rfl

/-- After the buffer has been filled, nothing is left of what it held. -/
theorem fill_holding (l : Vector Operand 3) : fill l (m.holding v) s = fill l m s := rfl

/-- An instruction that is not refused fills the buffer first. -/
theorem perform_holding (x : Exec σ Unit) (i : Program × Opcode × Vector Operand 3) :
    Alike v (perform b x i m s) (perform b x i (m.holding v) s) := by
  have hf : Alike v ((do fill i.2.2; execute b i.2.1 x i.1 : Exec σ Unit) m s)
      ((do fill i.2.2; execute b i.2.1 x i.1 : Exec σ Unit) (m.holding v) s) := by
    rw [bind_apply, bind_apply, fill_holding]
    exact .same _
  rw [perform]
  split
  · rw [bind_apply, bind_apply, guard, get_apply, get_apply,
      show (m.holding v).constantOnly = m.constantOnly from rfl]
    cases m.constantOnly with
    | true => exact .early _ m s
    | false => exact hf
  · exact hf

/-- When a method is called, all operands have been taken. -/
theorem perform_call (p : Program) (a n k : UInt64) (x : Exec σ Unit) :
    perform b x (p, .call, #v[.addr a, .imm n, .imm k]) m s =
      call .call p a n k (m.holding ⟨#v[.addr a, .imm n, .imm k], 3⟩) s := rfl

/-- So it is with a call of another contract. -/
theorem perform_xcall (p : Program) (a n k : UInt64) (x : Exec σ Unit) :
    perform b x (p, .xcall, #v[.addr a, .imm n, .imm k]) m s =
      callContract .xcall x a n k (m.holding ⟨#v[.addr a, .imm n, .imm k], 3⟩) s := rfl

/-- A step does the same whatever the buffer has held. -/
theorem step_holding (x : Exec σ Unit) : Alike v (step b x m s) (step b x (m.holding v) s) := by
  rw [step_eq, bind_apply, bind_apply, fetch_holding]
  generalize fetch m s = a
  obtain ⟨⟨e | i, k⟩, t⟩ := a
  · exact .early e k t
  · exact perform_holding k v t x i

/-- A turn does the same whatever the buffer has held. -/
theorem turn_holding : Alike v (turn b m s) (turn b (m.holding v) s) :=
  (step_holding m v s (run b)).marked

/-- A run does the same whatever the buffer has held. -/
theorem run_holding : Alike v (run b m s) (run b (m.holding v) s) := by
  by_cases hm : m.status = .running
  · -- The first instruction fills the buffer, unless the run ends with it.
    rw [run_of_running hm, run_of_running (m := m.holding v) hm]
    change Alike v (steps b (m.credits.remaining.toNat + 1) m s)
      (steps b (m.credits.remaining.toNat + 1) (m.holding v) s)
    rw [steps_apply, steps_apply, if_pos hm, if_pos (show (m.holding v).status = .running from hm)]
    exact (step_holding m v s _).marked.bind _
  · rw [run, get_apply, get_apply, if_pos hm, if_pos (show (m.holding v).status ≠ .running from hm)]
    exact .early _ m s

variable {m} {s} {m' : Machine} {s' : σ} {a n k : UInt64}

/-- A turn that calls a method, and goes on, has fetched and charged the call before. -/
theorem turn_call (hi : m.instruction? = some (.call, #v[.addr a, .imm n, .imm k]))
    (h : turn b m s = ((.ok (), m'), s')) :
    ∃ p c, call .call p a n k (Machine.holding
      { m with offset := m.next, next := m.next + 1, credits := c }
      ⟨#v[.addr a, .imm n, .imm k], 3⟩) s = ((.ok (), m'), s') := by
  obtain ⟨p, o, l, c, ho, _, hx⟩ := turn_performs h
  rw [hi] at ho
  cases ho
  exact ⟨p, c, perform_call _ s p a n k (run b) ▸ hx⟩

/-- It is the same for a call of another contract. -/
theorem turn_xcall (hi : m.instruction? = some (.xcall, #v[.addr a, .imm n, .imm k]))
    (h : turn b m s = ((.ok (), m'), s')) :
    ∃ c, callContract .xcall (run b) a n k (Machine.holding
      { m with offset := m.next, next := m.next + 1, credits := c }
      ⟨#v[.addr a, .imm n, .imm k], 3⟩) s = ((.ok (), m'), s') := by
  obtain ⟨p, o, l, c, ho, _, hx⟩ := turn_performs h
  rw [hi] at ho
  cases ho
  exact ⟨c, perform_xcall _ s p a n k (run b) ▸ hx⟩

end Exec

open Exec

variable {σ : Type} {b : Backend σ}

/-- An execution is the same whatever the buffer has held when it begins. -/
theorem Machine.call_holding (m : Machine) (v : Operands) (e : Entry) (args : List Value)
    (n : UInt64) (s : σ) : Alike v (m.call b e args n s) ((m.holding v).call b e args n s) := by
  rw [call, call, begin_holding]
  generalize m.begin e args n = a
  obtain ⟨e | _, k⟩ := a
  · exact .early e k s
  · exact run_holding k v s

/-- A nested run comes to the same whatever is in the buffer of the machine that is called: the
    caller pays as much, and gets the same result. -/
theorem Exec.delegate_holding (m : Machine) (v : Operands) (c : Address) (p : Program) (n : UInt64)
    (args : List Value) (s : σ) :
    delegate (run b) c p n args m s =
      match ((callee m c p).holding v).call b (.index n) args m.credits.remaining s with
      | ((r, k), t) =>
        ((r.map fun _ => k.result.getD .nil,
          { m with credits := m.credits.absorb k.credits.used k.credits.profile }), t) := by
  have h := (callee m c p).call_holding (b := b) v (.index n) args m.credits.remaining s
  rw [delegate_apply, ← Machine.call_eq]
  generalize (callee m c p).call b (.index n) args m.credits.remaining s = a at h ⊢
  generalize ((callee m c p).holding v).call b (.index n) args m.credits.remaining s = d at h ⊢
  cases h with
  | same => rfl
  | early => rfl

end CreditMachine
