import CreditMachine.Proofs.Isolation
import CreditMachine.Proofs.Reuse

/-!
# Methods without result

A method may be declared to have no result. Whether it has one is asked in two places: when an
execution has finished (`Machine.result_of_begin`), and when another contract has been called, whose
machine has no result then either. In both cases nothing of the frame of the method is seen.

A return to a caller in the same machine does not ask. The base gets what the method has left in its
slot 0, be there a result or not, so `CALL` and `XCALL` do not agree about such methods
(`Machine.call_void`, `Machine.not_call_void`).
-/

namespace CreditMachine

namespace Machine

open Exec

variable {σ : Type} {b : Backend σ} {m : Machine}

/-- An execution whose target has no result ends without one. -/
theorem result_of_begin (hm : m.memory.capacity = stackCapacity) {p : Program}
    (hp : m.program = some p) {e : Entry} {args : List Value} {t : Target}
    (ht : target p args.length e = .ok t) (hr : t.returns = false) {n : UInt64} {g k : Machine}
    {s s' : σ} (hg : m.begin e args n = (.ok (), g)) (hk : Exec.run b g s = ((.ok (), k), s')) :
    k.result = none := by
  have hf : k.returns = false := by
    have hf := (fixed_run b g s).returns
    rw [run, hk] at hf
    rcases begin_cases hm e args n with ⟨_, ha, _⟩ | ⟨_, _, ha⟩ |
      ⟨q, t', _, _, hq, ht', _, _, _, ha⟩ <;> cases hg.symm.trans ha
    cases hp.symm.trans hq
    cases ht.symm.trans ht'
    exact hf.trans hr
  rw [result, hf, if_neg (fun h => Bool.false_ne_true h.2)]

/-- A contract is called at a method without result. The base gets nil. -/
theorem nil_of_callContract {o : Opcode} {e : Address} {a n l : UInt64} {i : Nat}
    (ha : Region.ofAddress? a = some (.stack i)) (hv : m.stackValue i = some (.bytes e.bytes))
    {p : Program} (he : m.registry e = some p) {d : Method} (hd : p.methods[n.toNat]? = some d)
    (hr : d.returns = false) {m' : Machine} {s s' : σ}
    (h : callContract o (Exec.run b) a n l m s = ((.ok (), m'), s')) :
    m'.stackValue i = some .nil := by
  obtain ⟨f, c, args, v, _, w, hf, _, _, hx, hw, rfl⟩ := callContract_ok ha hv he h
  obtain ⟨g, k, hg, hk, _, rfl, rfl⟩ := delegate_ok hx
  have ht : target p args.length (.index n) =
      .ok ⟨d.name, d.entry.toNat, d.frame, d.arity.toNat, d.returns⟩ := by
    rw [target, hd]
  rw [result_of_begin rfl rfl ht hr hg hk] at hw
  obtain rfl := Memory.set_ok hw
  rw [stackValue_eq hf] at hv
  rw [stackValue_eq (f := f) (by exact hf)]
  split at hv
  · next hi =>
    rw [if_pos hi]
    exact Array.getElem?_setIfInBounds_self_of_lt (Array.getElem?_eq_some_iff.1 hv).1
  · cases hv

/-- Methods without result. As the entry of an execution that succeeds, such a method leads to no
    result, whatever it leaves in its slot 0. When `XCALL` has called it, the base is nil. `CALL`
    does not know of results: when it has called a method, the base has what the method has left
    in its slot 0. So it is nil if this is nil, and only then. -/
theorem call_void (hm : m.Reachable b) {p : Program} (hp : m.program = some p) :
    (∀ {e : Entry} {args : List Value} {t : Target}, target p args.length e = .ok t →
      t.returns = false → ∀ {n : UInt64} {k : Machine} {s s' : σ},
      m.call b e args n s = ((.ok (), k), s') → k.result = none) ∧
    ∀ {a j l : UInt64} {i : Nat}, Region.ofAddress? a = some (.stack i) →
      (m.instruction? = some (.xcall, #v[.addr a, .imm j, .imm l]) →
        ∀ {e : Address} {p : Program} {d : Method}, m.stackValue i = some (.bytes e.bytes) →
        m.registry e = some p → p.methods[j.toNat]? = some d → d.returns = false →
        ∀ {m' : Machine} {s s' : σ}, Exec.turn b m s = ((.ok (), m'), s') →
        m'.stackValue i = some .nil) ∧
      (m.instruction? = some (.call, #v[.addr a, .imm j, .imm l]) →
        ∀ {d : Method}, p.methods[j.toNat]? = some d → d.returns = false →
        ∀ {k n m' : Machine} {s t u u' : σ}, Exec.turn b m s = ((.ok (), k), t) →
        Until b (·.Returning (m.frames.length + 1)) k t n u →
        Exec.turn b n u = ((.ok (), m'), u') →
        m'.stackValue i = n.stackValue 0 ∧
          (m'.stackValue i = some .nil ↔ n.stackValue 0 = some .nil)) := by
  refine ⟨fun ht hr n k s s' hk => ?_, fun {a j l i} ha => ⟨?_, ?_⟩⟩
  · rw [call] at hk
    split at hk
    · next hg => exact result_of_begin hm.tidy.capacity hp ht hr hg hk
    · cases hk
  · intro hi e p d hv he hd hr m' s s' hk
    obtain ⟨c, hk⟩ := turn_xcall hi hk
    exact nil_of_callContract
      (m := holding { m with offset := m.next, next := m.next + 1, credits := c } _)
      ha hv he hd hr hk
  · -- Here nothing asks whether the method returns a value: its slot 0 is copied.
    intro hi d _ _ k n m' s t u u' hk hu hn
    obtain ⟨_, q, hk⟩ := turn_call hi hk
    have ht := hm.tidy.still q m.next (m.next + 1) ⟨#v[.addr a, .imm j, .imm l], 3⟩ m.status
    obtain ⟨f, i', g, ha', he⟩ := entered_of_call ht hk
    cases ha.symm.trans ha'
    obtain ⟨_, _, _, hw, _⟩ := he.returned ht hu hn
    rw [hw]
    exact ⟨rfl, .rfl⟩

/-- A program whose first method calls the second one, which has no result, in the same machine. The
    third one calls it as a method of another contract. -/
def silence : Program where
  constants := #[.bytes (Address.bytes ⟨7⟩)]
  code := #[.of .call [.stack 1, .imm 1, .imm 0], .of .copy [.stack 0, .stack 1], .of .ret [],
    .of .copy [.stack 0, .imm 7], .of .ret [],
    .of .copy [.stack 1, .constant 0], .of .xcall [.stack 1, .imm 1, .imm 0],
    .of .copy [.stack 0, .stack 1], .of .ret []]
  methods := #[⟨"main", 0, 2, 0, true⟩, ⟨"quiet", 3, 1, 0, false⟩, ⟨"other", 5, 2, 0, true⟩]
  lines := #[]

/-- A machine that is about to execute one of the methods. -/
def silent (i : UInt64) : Machine :=
  (((new ⟨7⟩ false (fun c => if c = ⟨7⟩ then some silence else none) 0).load silence).begin
    (.index i) [] 2000).2

theorem reachable_silent (i : UInt64) : (silent i).Reachable Ledger.backend :=
  .step (.step (.new ..) (.load ..)) (.begin ..)

/-- The first method calls the second one, which leaves 7 in its slot 0 and returns. -/
theorem until_silent :
    let k := Exec.turn Ledger.backend (silent 0) .sample
    let n := Exec.turn Ledger.backend k.1.2 k.2
    let x := Exec.turn Ledger.backend n.1.2 n.2
    k = ((.ok (), k.1.2), k.2) ∧ Until Ledger.backend (·.Returning 2) k.1.2 k.2 n.1.2 n.2 ∧
      x = ((.ok (), x.1.2), x.2) ∧ x.1.2.stackValue 1 = some (.ofWord64 7) := by
  intro k n x
  have hn : n = ((.ok (), n.1.2), n.2) := goes_on n (by decide +kernel)
  refine ⟨goes_on k (by decide +kernel), .turn (by decide +kernel) (by decide +kernel) hn ?_,
    goes_on x (by decide +kernel), by decide +kernel⟩
  exact .done (by decide +kernel)

/-- The second method is executed, called as another contract, and called in the same machine. -/
theorem call_void_silence :
    let r := (silent 1).call Ledger.backend (.index 1) [] 2000 .sample
    let m := (Exec.turn Ledger.backend (silent 2) .sample).1.2
    let k := Exec.turn Ledger.backend (silent 0) .sample
    let n := Exec.turn Ledger.backend k.1.2 k.2
    let x := Exec.turn Ledger.backend n.1.2 n.2
    (r.1.1 = .ok () ∧ r.1.2.stackValue 0 = some (.ofWord64 7) ∧ r.1.2.result = none) ∧
      (Exec.turn Ledger.backend m .sample).1.2.stackValue 1 = some .nil ∧
      (x.1.2.stackValue 1 = n.1.2.stackValue 0 ∧ x.1.2.stackValue 1 ≠ some .nil) := by
  obtain ⟨hk, hu, hx, hv⟩ := until_silent
  have hi : Region.ofAddress? (stackBase + 1) = some (.stack 1) := by decide
  have ht : target silence ([] : List Value).length (.index 1) =
    .ok ⟨"quiet", 3, 1, 0, false⟩ := rfl
  obtain ⟨hr, -⟩ := call_void (reachable_silent 1) rfl
  obtain ⟨-, hc⟩ := call_void (reachable_silent 0) rfl
  obtain ⟨-, hc⟩ := hc (j := 1) (l := 0) hi
  obtain ⟨-, hn⟩ := call_void
    ((reachable_silent 2).step (.turn .sample (by decide +kernel))) rfl
  obtain ⟨hn, -⟩ := hn (j := 1) (l := 0) hi
  dsimp only
  refine ⟨⟨by decide +kernel, by decide +kernel, ?_⟩, ?_, ?_, ?_⟩
  · exact hr ht rfl (goes_on _ (by decide +kernel))
  · exact hn (by decide +kernel) (e := ⟨7⟩) (by decide +kernel) rfl rfl rfl
      (goes_on _ (by decide +kernel))
  · exact (hc (by decide +kernel) rfl rfl hk hu hx).1
  · rw [hv]
    decide

/-- A method without result that `CALL` has called may leave another value than nil in the base. -/
theorem not_call_void : ¬∀ {m k n m' : Machine} {p : Program} {d : Method} {a j l : UInt64}
    {i : Nat} {s t u u' : Ledger}, m.Reachable Ledger.backend → m.program = some p →
    Region.ofAddress? a = some (.stack i) →
    m.instruction? = some (.call, #v[.addr a, .imm j, .imm l]) → p.methods[j.toNat]? = some d →
    d.returns = false → Exec.turn Ledger.backend m s = ((.ok (), k), t) →
    Until Ledger.backend (·.Returning (m.frames.length + 1)) k t n u →
    Exec.turn Ledger.backend n u = ((.ok (), m'), u') → m'.stackValue i = some .nil := by
  intro h
  obtain ⟨hk, hu, hx, hv⟩ := until_silent
  have hi : Region.ofAddress? (stackBase + 1) = some (.stack 1) := by decide
  have hn := h (reachable_silent 0) rfl hi (j := 1) (l := 0) (by decide +kernel) rfl rfl hk hu hx
  rw [hv] at hn
  cases hn

end Machine

end CreditMachine
