import CreditMachine.Proofs.Buffer
import CreditMachine.Proofs.CallStack
import CreditMachine.Proofs.Conservation

/-!
# Machines that execute

A machine executes from the time an execution has begun, turn by turn, and so do the machines
that it calls in the midst of a turn (`Machine.Executing`). Until they abort, their frames are
as they should be (`Machine.Framed`), since every instruction keeps them so; hence no turn fails
for want of a frame or a slot (`Machine.frame_discipline`).
-/

namespace CreditMachine

namespace Exec

variable {σ : Type} {b : Backend σ} {m : Machine}

/-- Machines that stand keep standing. -/
def standing (σ : Type) : Comparison σ σ :=
  keeping σ Machine.Standing fun _ => Abort.ne_notRunning_of_isPlain

/-- A slot of the active frame is on the stack, so reading it fails only beyond the frame. -/
theorem standing_slot (n : Nat) (a : UInt64) :
    (standing σ).Holds (do slot (← stackIndex n a) a) (do slot (← stackIndex n a) a) := by
  intro m s hm
  obtain ⟨f, hf, _⟩ := hm.framed.active
  rw [bind_apply, stackIndex_apply hf]
  by_cases hn : f.size ≤ n
  · rw [if_pos hn]
    exact .error (Abort.ne_notRunning_of_isPlain rfl)
  · rw [if_neg hn]
    exact (standing σ).check (Plain.slot m.memory _ a) m s hm

/-- A slot of the active frame can be set, since it is on the stack. -/
theorem standing_setSlot (n : Nat) (v : Value) (a : UInt64) : (standing σ).Holds
    (do setSlot (← stackIndex n a) v a) (do setSlot (← stackIndex n a) v a) := by
  intro m s hm
  obtain ⟨f, hf, _⟩ := hm.framed.active
  rw [bind_apply, stackIndex_apply hf]
  by_cases hn : f.size ≤ n
  · rw [if_pos hn]
    exact .error (Abort.ne_notRunning_of_isPlain rfl)
  · rw [if_neg hn]
    dsimp only
    rw [setSlot_apply]
    cases hk : m.memory.set (f.base + n) v a with
    | ok k => exact .ok (hm.set hk)
    | error e => exact .error (ne_of_plain (Plain.set _ _ _ _) hk)

/-- A jump leaves the frames alone. -/
theorem standing_jump (p : Program) (n : UInt64) : (standing σ).Holds (jump p n) (jump p n) := by
  rw [jump]
  dsimp only
  split
  · exact (standing σ).throw rfl
  · exact .modify fun m hm => hm.still m.credits m.offset _ m.operands m.status

/-- What instructions do with memory and calls of methods keeps machines standing. -/
theorem standing_locals : (standing σ).Locals where
  onOperands f m s hm := .ok (hm.still m.credits m.offset m.next _ m.status)
  constant i a m s hm := (standing σ).check (Plain.constant m.memory i a) m s hm
  slot := standing_slot
  setSlot := standing_setSlot
  jump := standing_jump
  call o p a n k m s hm := by
    obtain ⟨f, hf, _⟩ := hm.framed.active
    exact (ends_call hm hf o p a n k s).mono (fun _ _ h => h) fun _ h => h.running

/-- Charges leave the frames alone. -/
theorem standing_charge (c : Category) (n : UInt64) :
    (standing σ).Holds (charge c n) (charge c n) := by
  intro m s hm
  refine (ends_charge (W := fun _ => True) m c n s).mono ?_ fun _ h => h.running
  rintro _ _ ⟨k, rfl⟩
  exact hm.still k m.offset m.next m.operands m.status

/-- Requests leave the machine alone, and do not fail as if it were not running. -/
theorem standing_asks (b : Backend σ) : (standing σ).Asks b b where
  get hf m s hm := hf m m rfl m s hm
  ask r m s hm := by
    rw [ask_apply]
    split
    · exact .ok hm
    · next e _ _ =>
      refine .error ?_
      cases e <;> rintro ⟨⟩
  charge := standing_charge
  guard o m s hm := by
    rw [guard, get_apply]
    split
    · exact .error (Abort.ne_notRunning_of_isPlain rfl)
    · exact .ok hm

/-- A machine that stands has a program, so fetching does not fail as if there were none. -/
theorem standing_fetch : Meets Machine.Standing (fetch : Exec σ _) (fun _ => Machine.Standing)
    (· ≠ .notRunning) := by
  intro m s hm
  obtain ⟨p, hp⟩ := Option.isSome_iff_exists.1 hm.program
  rw [fetch, get_apply, hp]
  dsimp only
  cases p.code[m.next]? with
  | none => exact .error (Abort.ne_notRunning_of_isPlain rfl)
  | some d =>
    refine Meets.bind (Q := fun _ => Machine.Standing)
      (.modify fun k hk => hk.still k.credits _ _ k.operands k.status) (fun _ => ?_) m s hm
    split
    · exact (standing σ).throw rfl
    · exact (standing σ).bind (standing_charge _ _) fun _ => (standing σ).pure _

section Nested

/-! What an instruction calls for is run on a machine that has begun. -/

variable {x : Exec σ Unit} (hx : Meets (fun g => g.Standing ∧ g.status = .running) x
  (fun _ _ => True) (· ≠ .notRunning))

include hx

/-- A call of another contract keeps the machine standing, if the run of the other one does not fail
    as if it were not running. -/
theorem standing_callContract (o : Opcode) (a n k : UInt64) :
    (standing σ).Holds (callContract o x a n k) (callContract o x a n k) := by
  intro m s hm
  obtain ⟨f, hf, _⟩ := hm.framed.active
  refine (ends_callContract hm hf o a n k s fun g u hg => ?_).mono (fun _ _ h => h)
    fun _ h => h.running
  obtain ⟨c, p, args, q, _, hd, hb⟩ := hg.begun hm
  exact hx g u (Machine.standing_begin (m := callee m c p) rfl hd hb)

/-- An instruction that was fetched keeps its machine standing. -/
theorem standing_perform (i : Program × Opcode × Vector Operand 3) :
    (standing σ).Holds (perform b x i) (perform b x i) := by
  have hp := (standing_asks b).requests.changes standing_locals
  obtain ⟨p, o, l⟩ := i
  rw [perform]
  dsimp only
  split
  · next ho => exact hp.mutate o l x x p ho fun _ => (standing_asks b).newMap _
  · next ho =>
    refine (standing σ).bind (standing_locals.fill l) fun _ => ?_
    refine hp.toParts.execute o p (by simpa using ho) (fun _ m s hm => ?_)
      (standing_callContract hx .xcall)
    obtain ⟨k, hk, hs⟩ := ret_standing hm s
    rw [hk]
    exact .ok hs

/-- An instruction keeps its machine standing. -/
theorem standing_step : (standing σ).Holds (step b x) (step b x) := by
  rw [step_eq]
  exact Meets.bind standing_fetch (standing_perform hx)

end Nested

/-- By induction on the instructions that may be fetched, for all machines at once: the runs that
    are nested have fewer left. -/
theorem standing_steps (n : Nat) : (standing σ).Holds (steps b n) (steps b n) := by
  induction n with
  | zero => exact (standing σ).pure ()
  | succ n ih =>
    -- The runs nested in the first instruction, and the instructions after it.
    have hx : Meets (fun g => g.Standing ∧ g.status = .running) (steps b n) (fun _ _ => True)
        (· ≠ .notRunning) :=
      fun g t hg => (ih g t hg.1).mono (fun _ _ _ => trivial) fun _ he => he
    intro m s hm
    rw [steps_apply]
    split
    · exact Meets.bind (.marked (standing_step hx)) (fun _ => ih) m s hm
    · exact .ok hm

/-- A machine that stands and is running does not fail as if it were not. -/
theorem meets_run : Meets (fun m => m.Standing ∧ m.status = .running) (run b) (fun _ _ => True)
    (· ≠ .notRunning) := by
  rintro m s ⟨hm, hr⟩
  rw [run_of_running hr]
  exact (standing_steps _ m s hm).mono (fun _ _ _ => trivial) fun _ he => he

/-- A turn keeps its machine standing. -/
theorem standing_turn : (standing σ).Holds (turn b) (turn b) :=
  .marked (standing_step meets_run)

/-- The operands of an instruction that have been taken one by one. -/
theorem toList_of_next {l : Vector Operand 3} {u v w : Operand}
    (hu : (Operands.of l).next.1.2 = u) (hv : (Operands.of l).advance.next.1.2 = v)
    (hw : (Operands.of l).advance.advance.next.1.2 = w) : l.toList = [u, v, w] := by
  obtain ⟨⟨_ | ⟨x, _ | ⟨y, _ | ⟨z, _ | _⟩⟩⟩⟩, hl⟩ := l <;> try cases hl
  subst hu hv hw
  rfl

/-- Only calls of other contracts depend on how a run is nested. When one is made, all operands
    have been taken. -/
theorem perform_congr_at {x y : Exec σ Unit} {s : σ} {i : Program × Opcode × Vector Operand 3}
    (h : ∀ a n k, i.2.1 = .xcall → i.2.2.toList = [.addr a, .imm n, .imm k] →
      callContract .xcall x a n k (m.holding ⟨i.2.2, 3⟩) s =
        callContract .xcall y a n k (m.holding ⟨i.2.2, 3⟩) s) :
    perform b x i m s = perform b y i m s := by
  obtain ⟨p, o, l⟩ := i
  by_cases ho : o = .xcall
  · subst ho
    refine bind_congr_at fun _ k t hf => ?_
    cases hf
    refine bind_congr_at fun a k t ha => ?_
    obtain ⟨hu, rfl, rfl⟩ := destination_ok ha
    refine bind_congr_at fun n k t hn => ?_
    obtain ⟨hv, rfl, rfl⟩ := immediate_ok hn
    refine bind_congr_at fun j k t hj => ?_
    obtain ⟨hw, rfl, rfl⟩ := immediate_ok hj
    exact h a n j rfl (toList_of_next hu hv hw)
  · cases o <;> first | exact absurd rfl ho | rfl

end Exec

namespace Machine

open Exec

variable {σ : Type} {b : Backend σ} {m : Machine}

variable (b) in
/-- A machine has begun an execution, and has made turns, or has been called in the midst of a
    turn. The outermost one is not called by another one. -/
inductive Executing : Machine → Prop
  | begin {m : Machine} {e : Entry} {args : List Value} {n : UInt64} : m.Reachable b →
    m.depth = 0 → (m.begin e args n).1 = .ok () → Executing (m.begin e args n).2
  | turn {m : Machine} (s : σ) : Executing m → m.status = .running → Executing (turn b m s).1.2
  | call {m : Machine} {c : Address} {p : Program} {n : UInt64} {args : List Value}
    {k : UInt64} : Executing m → m.status = .running → m.registry c = some p →
    m.depth + m.frames.length < maxDepth →
    ((callee m c p).begin (.index n) args k).1 = .ok () →
    Executing ((callee m c p).begin (.index n) args k).2

/-- A turn that fails has stopped its machine. -/
theorem status_of_turn_error {s : σ} {e : Abort} (h : (turn b m s).1.1 = .error e) :
    (turn b m s).1.2.status = .aborted := by
  rw [Exec.turn, marked_apply] at h ⊢
  generalize step b (Exec.run b) m s = a at h ⊢
  obtain ⟨⟨_ | _, _⟩, _⟩ := a
  · rfl
  · cases h

/-- By induction on how the machine has come to execute: it stands from the beginning, and each turn
    keeps it so. -/
theorem Executing.standing (h : m.Executing b) (hm : m.status = .running ∨ m.status = .finished) :
    m.Standing := by
  induction h with
  | begin h hd hb =>
    exact (standing_begin h.tidy.capacity (by rw [hd]; decide) (Prod.ext hb rfl)).1
  | @turn m s _ hr ih =>
    have ht := standing_turn (b := b) m s (ih (.inl hr))
    generalize hk : Exec.turn b m s = a at ht hm
    cases ht with
    | ok h => exact h
    | @error e k t he =>
      have ha : k.status = .aborted := by
        have := status_of_turn_error (b := b) (m := m) (s := s) (e := e) (by rw [hk])
        rwa [hk] at this
      rw [ha] at hm
      rcases hm with hm | hm <;> cases hm
  | @call m c p _ _ _ _ _ _ hd hb _ =>
    exact (standing_begin (m := callee m c p) rfl hd (Prod.ext hb rfl)).1

/-- What is called in the midst of a turn is a machine that executes. -/
theorem Executing.calls (h : m.Executing b) (hm : m.status = .running) {s t u : σ} {k g : Machine}
    {i : Program × Opcode × Vector Operand 3} (hi : fetch m s = ((.ok i, k), t))
    (operands : Operands) {o : Opcode} {a n j : UInt64}
    (hg : Calls o a n j (k.holding operands) t g u) :
    g.Executing b ∧ g.Standing ∧ g.status = .running := by
  obtain ⟨_, _, c, _, rfl, rfl⟩ := fetch_ok hi
  obtain ⟨c, p, args, q, hp, hd, hb⟩ :=
    hg.begun ((h.standing (.inl hm)).still c m.next (m.next + 1) operands m.status)
  have hb : (callee m c p).begin (.index n) args q = (.ok (), g) := hb
  have hg : Executing b ((callee m c p).begin (.index n) args q).2 :=
    .call h hm hp hd (by rw [hb])
  rw [hb] at hg
  exact ⟨hg, standing_begin (m := callee m c p) rfl hd hb⟩

/-- What a turn comes to depends only on the runs of machines that execute. -/
theorem Executing.step_congr (h : m.Executing b) (hm : m.status = .running) {x y : Exec σ Unit}
    (hx : ∀ g t, g.Executing b → g.status = .running → x g t = y g t) (s : σ) :
    step b x m s = step b y m s := by
  rw [step_eq, step_eq]
  refine bind_congr_at fun i k t hi => perform_congr_at fun a n j _ _ => ?_
  refine callContract_congr fun g u hg => ?_
  obtain ⟨he, _, hr⟩ := h.calls hm hi _ hg
  exact hx g u he hr

/-- The frame discipline. The frames of a machine that executes, or has finished, are as they
    should be. Hence no turn fails because the machine is not running, and in the midst of a
    turn, whatever operands have been taken, no return fails at all. If an address is out of range
    in a call of a method, then its window is; in a call of another contract, unless it is so in
    the run of the machine that is called. That one executes, too, and no others are run in a
    turn. -/
theorem frame_discipline {σ : Type} {b : Backend σ} {m : Machine} (h : m.Executing b)
    (hm : m.status = .running ∨ m.status = .finished) :
    m.Framed ∧ (m.status = .running → ∀ s,
      (Exec.turn b m s).1.1 ≠ .error .notRunning ∧
      (∀ i k t, Exec.fetch m s = ((.ok i, k), t) → ∀ operands : Operands,
        let k := k.holding operands
        (Exec.ret k t).1.1 = .ok () ∧
        (∀ o p a n j r, (Exec.call o p a n j k t).1.1 = .error (.addressOutOfRange r) →
          (Exec.window o a j k t).1.1 = .error (.addressOutOfRange r)) ∧
        ∀ o a n j,
          (∀ r, (Exec.callContract o (Exec.run b) a n j k t).1.1 = .error (.addressOutOfRange r) →
            (Exec.window o a j k t).1.1 = .error (.addressOutOfRange r) ∨
              ∃ g u, Exec.Calls o a n j k t g u ∧
                (Exec.run b g u).1.1 = .error (.addressOutOfRange r)) ∧
          ∀ g u, Exec.Calls o a n j k t g u → g.Executing b) ∧
      ∀ x : Exec σ Unit,
        (∀ g t, g.Executing b → g.status = .running → x g t = Exec.run b g t) →
        Exec.step b x m s = Exec.step b (Exec.run b) m s) := by
  have hs := h.standing hm
  refine ⟨hs.framed, fun hr s => ⟨fun he => ?_, fun i k t hi operands => ?_, fun x hx => ?_⟩⟩
  · exact (standing_turn m s hs).of_error he rfl
  · have hg {o a n j g u} (hg : Calls o a n j (k.holding operands) t g u) :=
      h.calls hr hi operands hg
    obtain ⟨p, o, l⟩ := i
    obtain ⟨_, _, c, _, hk, rfl⟩ := fetch_ok hi
    -- What has been fetched and decoded has not touched a frame.
    have hk : (k.holding operands).Standing := hk ▸ hs.still c m.next (m.next + 1) operands m.status
    obtain ⟨f, hf, _⟩ := hk.framed.active
    dsimp only
    refine ⟨?_, fun o p a n j r he => ?_, fun o a n j => ⟨fun r he => ?_, fun g u h => (hg h).1⟩⟩
    · obtain ⟨k, hk, _⟩ := ret_standing hk t
      rw [hk]
    · rw [window_apply hf (hk.active hf).2]
      exact ((ends_call hk hf o p a n j t).of_error he).outOfRange r rfl
    · rw [window_apply hf (hk.active hf).2]
      have hx := ends_callContract hk hf o a n j t fun g u h => meets_run (b := b) g u (hg h).2
      exact (hx.of_error he).outOfRange r rfl
  · exact h.step_congr hr hx s

/-- The sample has begun on a machine that was just made. -/
theorem executing_starting : starting.Executing Ledger.backend := by
  unfold starting
  exact .begin (.step (.new ..) (.load ..)) rfl (by rfl)

/-- It executes two turns later, too. -/
theorem executing_calling : calling.Executing Ledger.backend := by
  have hs : started.Executing Ledger.backend := by
    unfold started
    exact .turn Ledger.sample executing_starting (by decide +kernel)
  unfold calling
  exact .turn Ledger.sample hs (by decide +kernel)

/-- A machine that calls itself, and the one that is called. -/
theorem frame_discipline_calling :
    let g := ((callee calling ⟨7⟩ relay).begin (.index 1) [.ofWord64 5] 1996).2
    (calling.status = .running ∧ calling.Framed) ∧ (g.status = .running ∧ g.depth = 1 ∧ g.Framed) ∧
      ∀ s, (Exec.turn Ledger.backend calling s).1.1 ≠ .error .notRunning ∧
        (Exec.turn Ledger.backend g s).1.1 ≠ .error .notRunning := by
  have hr : calling.status = .running := by decide +kernel
  have hg : ((callee calling ⟨7⟩ relay).begin (.index 1) [.ofWord64 5] 1996).2.status =
      .running := by
    decide +kernel
  have he : ((callee calling ⟨7⟩ relay).begin (.index 1) [.ofWord64 5] 1996).2.Executing
      Ledger.backend :=
    .call executing_calling hr (by decide +kernel) (by decide +kernel) (by rfl)
  obtain ⟨hf, ht⟩ := frame_discipline executing_calling (.inl hr)
  obtain ⟨hf', ht'⟩ := frame_discipline he (.inl hg)
  exact ⟨⟨hr, hf⟩, ⟨hg, by decide +kernel, hf'⟩, fun s => ⟨(ht hr s).1, (ht' hg s).1⟩⟩

end Machine

end CreditMachine
