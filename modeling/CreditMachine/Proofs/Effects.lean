import CreditMachine.Proofs.Coupling
import CreditMachine.Proofs.Register

/-!
# Effects on a register

What a machine does to the storage of its contract, if it does not abort, told
as an effect on the register that the storage shows (`Exec.Does`). An execution
is followed from the left: charges have no effect, requests have the one that
they have on registers, and what comes after starts where they end.

From this follows what each change of a container does as a whole, such as
`Exec.Does.storeEntry`.
-/

namespace CreditMachine.Exec

variable {σ α β : Type}

/-- Executed for the contract `c` where the register is `h`, `x` aborts, or it
    returns some `v` and leaves a register `k` with `Q v k`. -/
def Does (R : σ → Register → Prop) (c : Address) (h : Register) (x : Exec σ α)
    (Q : α → Register → Prop) : Prop :=
  ∀ m s v m' s', m.contract = c → R s h → x m s = ((.ok v, m'), s') →
    m'.contract = c ∧ ∃ k, R s' k ∧ Q v k

namespace Does

variable {R : σ → Register → Prop} {c : Address} {h : Register} {x : Exec σ α} {f : α → Exec σ β}
  {Q : α → Register → Prop} {P : β → Register → Prop}

theorem done {v : α} (hQ : Q v h) : Does R c h (pure v) Q := by
  intro m s w m' s' hm hs he
  cases he
  exact ⟨hm, h, hs, hQ⟩

theorem abort (e : Abort) : Does R c h (throw e) Q := by
  intro m s v m' s' _ _ he
  cases he

/-- Effects follow one another. -/
theorem bind (hx : Does R c h x Q) (hf : ∀ v k, Q v k → Does R c k (f v) P) :
    Does R c h (x >>= f) P := by
  intro m s v m' s' hm hs he
  rw [bind_apply] at he
  split at he
  · next w n t hw =>
    obtain ⟨hn, k, hk, hq⟩ := hx _ _ _ _ _ hm hs hw
    exact hf w k hq _ _ _ _ _ hn hk he
  · cases he

/-- An execution after which nothing comes. -/
theorem last (hx : Does R c h (x >>= fun v => pure v) Q) : Does R c h x Q := by
  rwa [bind_pure] at hx

/-- What is told of the end can be weakened. -/
theorem mono (hx : Does R c h x Q) {P : α → Register → Prop} (hP : ∀ v k, Q v k → P v k) :
    Does R c h x P := by
  intro m s v m' s' hm hs he
  obtain ⟨hm, k, hk, hq⟩ := hx _ _ _ _ _ hm hs he
  exact ⟨hm, k, hk, hP v k hq⟩

theorem abort_bind (e : Abort) : Does R c h ((throw e : Exec σ α) >>= f) P :=
  bind (Q := fun _ _ => False) (abort e) fun _ _ h => h.elim

/-- A machine sees which contract it is executed for. -/
theorem get {f : Machine → Exec σ α} (hf : ∀ m, m.contract = c → Does R c h (f m) Q) :
    Does R c h (do f (← get)) Q :=
  fun m s v m' s' hm hs he => hf m hm m s v m' s' hm hs he

theorem check (r : Except Abort α) : Does R c h (check r) fun _ k => k = h := by
  cases r with
  | ok v => exact done rfl
  | error e => exact abort e

/-- A charge has none either, whether it is refused or not. -/
theorem charge {g : Category} {n : UInt64} {f : Unit → Exec σ β} (hf : Does R c h (f ()) P) :
    Does R c h (charge g n >>= f) P := by
  have hc : Does R c h (Exec.charge g n : Exec σ Unit) fun _ k => k = h := by
    refine get fun m _ => (check _).bind fun v k hk => ?_
    intro n s w n' s' hn hs he
    cases he
    exact ⟨hn, k, hs, hk⟩
  exact hc.bind fun _ k hk => hk ▸ hf

/-! ### Requests -/

variable {b : Backend σ} (hb : b.Shows R)

include hb

/-- A request has an answer that the register allows, and leaves the register after it. -/
theorem ask {r : Request} {f : r.Answer → Exec σ β}
    (hf : ∀ a, h.Answers r a → Does R c (h.after r) (f a) P) : Does R c h (ask b r >>= f) P := by
  have ha : Does R c h (Exec.ask b r) fun a k => h.Answers r a ∧ k = h.after r := by
    intro m s v m' s' hm hs he
    obtain ⟨a, t, hr, ha, ht⟩ := hb.reply r hs
    rw [ask_apply, hr] at he
    cases he
    exact ⟨hm, _, ht, ha, rfl⟩
  exact ha.bind fun a k ⟨hr, hk⟩ => hk ▸ hf a hr

/-- What is read of a cell is what the register has there. -/
theorem load {y : Cell} {f : Option Value → Exec σ β} (hf : Does R c h (f (h.get? ⟨c, y⟩)) P) :
    Does R c h (load b y >>= f) P := by
  rw [Exec.load, bind_assoc]
  refine get fun m hm => ?_
  rw [bind_assoc]
  refine ask hb fun v? hv => ?_
  have hv : v? = h.get? ⟨c, y⟩ := hm ▸ hv
  rw [← hv] at hf
  cases v? with
  | none => exact hf
  | some v =>
    rw [bind_assoc]
    exact charge hf

/-- A cell that is written is put into the register. -/
theorem store {y : Cell} {v : Value} {f : Unit → Exec σ β}
    (hf : Does R c (h.put ⟨c, y⟩ v) (f ()) P) : Does R c h (store b y v >>= f) P := by
  rw [Exec.store, bind_assoc]
  refine charge ?_
  rw [bind_assoc]
  exact get fun m hm => ask hb fun _ _ => hm ▸ hf

/-- An entry that is removed is removed from the register. -/
theorem unstore {s : Slot} {j : Key} {f : Unit → Exec σ β}
    (hf : Does R c (h.remove ⟨c, .entry s j⟩) (f ()) P) :
    Does R c h (unstore b s j >>= f) P := by
  rw [Exec.unstore, bind_assoc]
  exact get fun m hm => ask hb fun _ _ => hm ▸ hf

theorem search (v : Value) : Does R c h (search b v) fun _ k => k = h :=
  get fun _ _ => ask hb fun _ _ => charge (done rfl)

/-! ### Containers -/

variable (o : Opcode) (s : Slot)

/-- A root that holds no container gets a value that is none. -/
theorem storeRoot (v : Value) : Does R c h (storeRoot b o s v) fun _ k =>
    v.isContainer = false ∧ (∀ w, h.get? ⟨c, .root s⟩ = some w → w.isContainer = false) ∧
      k = h.put ⟨c, .root s⟩ v := by
  rw [Exec.storeRoot]
  dsimp only
  split
  · exact abort_bind _
  · next hv =>
    refine load hb ?_
    cases hw : h.get? ⟨c, .root s⟩ with
    | none => exact last (store hb (done ⟨by simpa using hv, by simp, rfl⟩))
    | some w =>
      dsimp only
      split
      · exact abort_bind _
      · next hc => exact last (store hb (done ⟨by simpa using hv, by simpa using hc, rfl⟩))

/-- An instruction that finds a container has found an array or a map at the root. -/
theorem container {f : Container → Exec σ β}
    (ha : ∀ n, h.get? ⟨c, .root s⟩ = some (.array n) → Does R c h (f (.array n)) P)
    (hm : ∀ n, h.get? ⟨c, .root s⟩ = some (.map n) → Does R c h (f (.map n)) P) :
    Does R c h (container b o s >>= f) P := by
  rw [Exec.container, bind_assoc]
  refine load hb ?_
  cases hv : h.get? ⟨c, .root s⟩ with
  | none => exact abort_bind _
  | some v =>
    cases v with
    | array n => exact ha n hv
    | map n => exact hm n hv
    | _ => exact abort_bind _

/-- An entry is written, and counted if it is new. An array has no gaps. -/
theorem storeEntry (j : Key) (v : Value) : Does R c h (storeEntry b o s j v) fun _ k =>
    (∃ n, h.get? ⟨c, .root s⟩ = some (.map n) ∧
      k = if (h.get? ⟨c, .entry s j⟩).isSome then h.put ⟨c, .entry s j⟩ v
        else (h.put ⟨c, .entry s j⟩ v).put ⟨c, .root s⟩ (.map (addSat n 1))) ∨
    (∃ n, h.get? ⟨c, .root s⟩ = some (.array n) ∧ j ≤ n ∧
      k = if j < n then h.put ⟨c, .entry s j⟩ v
        else (h.put ⟨c, .entry s j⟩ v).put ⟨c, .root s⟩ (.array (addSat n 1))) := by
  refine container hb o s (fun n hn => ?_) fun n hn => ?_
  · dsimp only
    split
    · -- A gap would be left.
      exact abort_bind _
    · next hj =>
      have hj : j ≤ n := by simpa using hj
      refine store hb ?_
      split
      · next he => exact last (store hb (done (.inr ⟨n, hn, hj, by simp [he]⟩)))
      · next he =>
        have hl : j < n := UInt64.lt_of_le_of_ne hj he
        exact done (.inr ⟨n, hn, hj, by rw [if_pos hl]⟩)
  · refine load hb (store hb ?_)
    split
    · next he => exact last (store hb (done (.inl ⟨n, hn, by simp_all⟩)))
    · next he => exact done (.inl ⟨n, hn, by simp_all⟩)

/-- An entry of a map is removed, and the last one of an array. -/
theorem removeEntry (j : Key) : Does R c h (removeEntry b o s j) fun _ k =>
    (∃ n, h.get? ⟨c, .root s⟩ = some (.map n) ∧
      k = if (h.get? ⟨c, .entry s j⟩).isSome then
          (h.remove ⟨c, .entry s j⟩).put ⟨c, .root s⟩ (.map (if n = 0 then 0 else n - 1))
        else h) ∨
    (∃ n, h.get? ⟨c, .root s⟩ = some (.array n) ∧ n ≠ 0 ∧ j = n - 1 ∧
      k = (h.remove ⟨c, .entry s j⟩).put ⟨c, .root s⟩ (.array j)) := by
  refine container hb o s (fun n hn => ?_) fun n hn => ?_
  · dsimp only
    split
    · exact abort_bind _
    · -- Only the last entry is removed from an array.
      next hj =>
      rw [not_or, not_not] at hj
      exact unstore hb (last (store hb (done (.inr ⟨n, hn, hj.1, hj.2, rfl⟩))))
  · refine load hb ?_
    split
    · next he => exact unstore hb (last (store hb (done (.inl ⟨n, hn, rfl⟩))))
    · next he => exact done (.inl ⟨n, hn, rfl⟩)

theorem erase : Does R c h (erase b s) fun _ k => k = h.removeSlot ⟨c, .root s⟩ :=
  get fun m hm => last (ask hb fun _ _ => done (by rw [hm]; rfl))

/-- An absent root gets an empty map. -/
theorem newMap : Does R c h (newMap b o s) fun _ k =>
    k = if (h.get? ⟨c, .root s⟩).isSome then h else h.put ⟨c, .root s⟩ (.map 0) := by
  -- An allocation changes the register only where a root is absent; what is there
  -- otherwise decides between a container and an abort.
  refine charge (get fun m hm => ask hb fun _ _ => load hb ?_)
  subst hm
  split
  · exact done rfl
  · exact abort _
  · exact abort _

/-- An absent root gets an empty array. -/
theorem newArray : Does R c h (newArray b o s) fun _ k =>
    k = if (h.get? ⟨c, .root s⟩).isSome then h else h.put ⟨c, .root s⟩ (.array 0) := by
  refine load hb ?_
  cases hv : h.get? ⟨c, .root s⟩ with
  | none => exact last (store hb (done rfl))
  | some v =>
    cases v with
    | array n => exact done rfl
    | _ => exact abort _

/-- An array gets one more entry. -/
theorem append (v : Value) : Does R c h (append b o s v) fun _ k =>
    ∃ n, h.get? ⟨c, .root s⟩ = some (.array n) ∧
      k = (h.put ⟨c, .entry s n⟩ v).put ⟨c, .root s⟩ (.array (addSat n 1)) := by
  refine load hb ?_
  cases hv : h.get? ⟨c, .root s⟩ with
  | none => exact abort _
  | some w =>
    cases w with
    | array n => exact store hb (last (store hb (done ⟨n, rfl, rfl⟩)))
    | _ => exact abort _

end Does

end CreditMachine.Exec
