import CreditMachine.Proofs.Frames

/-!
# Conditions before and after

What an execution does to its machine, and what it may abort for, told by conditions: on a
machine that `P` holds of, it goes on with a value and a machine that `Q` holds of, or it
aborts for a reason that `E` holds of (`Exec.Meets P x Q E`). Of the storage nothing is said.
Conditions are followed from the left, through `Exec.Meets.bind`.

A condition that holds before and after is an invariant. What is made of parts that keep an
invariant keeps it (`Exec.keeping`).
-/

namespace CreditMachine.Exec

variable {σ α β : Type}

/-- An execution has gone on with a value and a machine that `Q` holds of, or has aborted
    for a reason that `E` holds of. -/
inductive Ends (Q : α → Machine → Prop) (E : Abort → Prop) :
    (Except Abort α × Machine) × σ → Prop
  | ok {v k t} : Q v k → Ends Q E ((.ok v, k), t)
  | error {e k t} : E e → Ends Q E ((.error e, k), t)

/-- Executed on a machine that `P` holds of, `x` ends as `Q` and `E` tell. -/
def Meets (P : Machine → Prop) (x : Exec σ α) (Q : α → Machine → Prop) (E : Abort → Prop) : Prop :=
  ∀ m s, P m → Ends Q E (x m s)

variable {P : Machine → Prop} {Q : α → Machine → Prop} {R : β → Machine → Prop} {E : Abort → Prop}

/-- What has ended as told goes on from there. -/
theorem Ends.bind {x : Exec σ α} {f : α → Exec σ β} {m : Machine} {s : σ} (hx : Ends Q E (x m s))
    (hf : ∀ v, Meets (Q v) (f v) R E) : Ends R E ((x >>= f) m s) := by
  rw [bind_apply]
  generalize x m s = a at hx
  cases hx with
  | ok h => exact hf _ _ _ h
  | error h => exact .error h

/-- What is told of an end can be weakened, for results as well as for aborts. -/
theorem Ends.mono {Q' : α → Machine → Prop} {E' : Abort → Prop} {a : (Except Abort α × Machine) × σ}
    (h : Ends Q E a) (hQ : ∀ v m, Q v m → Q' v m) (hE : ∀ e, E e → E' e) : Ends Q' E' a := by
  cases h with
  | ok h => exact .ok (hQ _ _ h)
  | error h => exact .error (hE _ h)

/-- What an abort was for. -/
theorem Ends.of_error {a : (Except Abort α × Machine) × σ} {e : Abort} (h : Ends Q E a)
    (he : a.1.1 = .error e) : E e := by
  cases h with
  | ok h => cases he
  | error h =>
    cases he
    exact h

namespace Meets

theorem pure {v : α} (h : ∀ m, P m → Q v m) : Meets P (pure v : Exec σ α) Q E :=
  fun m _ hm => .ok (h m hm)

theorem throw {e : Abort} (h : E e) : Meets P (throw e : Exec σ α) Q E := fun _ _ _ => .error h

/-- If nothing is said of aborts, only executions that go on count. -/
theorem of_ok {x : Exec σ α}
    (h : ∀ {m k s t v}, P m → x m s = ((.ok v, k), t) → Q v k) : Meets P x Q fun _ => True := by
  intro m s hm
  cases hx : x m s with
  | mk r t =>
    obtain ⟨_ | v, k⟩ := r
    · exact .error trivial
    · exact .ok (h hm hx)

/-- What is known of a machine that the execution has gone on with. -/
theorem ok {x : Exec σ α} (hx : Meets P x Q E) {m k : Machine} {s t : σ} {v : α} (hm : P m)
    (h : x m s = ((.ok v, k), t)) : Q v k := by
  have hn := hx m s hm
  rw [h] at hn
  cases hn with
  | ok hn => exact hn

/-- Conditions are chained: where the first part ends, the second one starts. -/
theorem bind {x : Exec σ α} {f : α → Exec σ β} (hx : Meets P x Q E)
    (hf : ∀ v, Meets (Q v) (f v) R E) : Meets P (x >>= f) R E :=
  fun m s hm => (hx m s hm).bind hf

/-- A change of the machine meets what holds of the changed machine. -/
theorem modify {f : Machine → Machine} {Q : Unit → Machine → Prop} (hf : ∀ m, P m → Q () (f m)) :
    Meets P (modify f : Exec σ Unit) Q E :=
  fun m _ hm => .ok (hf m hm)

/-- A mark changes no abort, and nothing of what goes on. -/
theorem marked {x : Exec σ Unit} {Q : Machine → Prop} (hx : Meets P x (fun _ => Q) E) :
    Meets P (marked x) (fun _ => Q) E := by
  intro m s hm
  have h := hx m s hm
  rw [marked_apply]
  generalize x m s = a at h
  cases h with
  | ok h => exact .ok h
  | error h => exact .error h

end Meets

/-- What is made of parts that keep an invariant keeps it. -/
def keeping (σ : Type) (I : Machine → Prop) {E : Abort → Prop} (hE : ∀ e, e.isPlain → E e) :
    Comparison σ σ where
  Holds x _ := Meets I x (fun _ => I) E
  pure _ := .pure fun _ h => h
  throw he := .throw (hE _ he)
  bind := .bind

end CreditMachine.Exec
