import CreditMachine.Proofs.Budget
import CreditMachine.Proofs.Frames

/-!
# Conservation of credits

The credits that a machine has used are those of its profile, category by category, and
never more than its budget (`Credits.Conserved`). Charges keep this, and so does the
payment for a nested execution: what that has used fits into what was left, so that it is
paid for exactly (`Exec.delegate_used`), although sums of credits are cut to the budget.
Hence it is true of every machine that is reachable, and of every outcome of a call
(`Machine.conservation`).

What was used never decreases while a machine goes on, and an execution that is refused
leaves it alone, with one exception: if the frame of an execution does not fit on the
stack, then the machine has got the new budget already, and has forgotten what it has used
(`Machine.not_used_le_of_refused`).
-/

namespace CreditMachine

namespace Profile

variable {p q : Profile}

/-- The credits of all categories, however many. -/
def sum (p : Profile) : Nat :=
  Category.all.foldl (fun n c => n + (p.get c).toNat) 0

/-- What was spent on all categories, without a limit. -/
theorem sum_eq (p : Profile) : p.sum =
    p.opcode.toNat + p.storageRead.toNat + p.storageWrite.toNat + p.callOverhead.toNat := by
  simp only [sum, Category.all, List.foldl, get]
  omega

/-- What was spent on one category is a part of it. -/
theorem get_le_sum (p : Profile) (c : Category) : (p.get c).toNat ≤ p.sum := by
  rw [sum_eq]
  cases c <;> simp only [get] <;> omega

/-- Credits are added to one category. -/
theorem toNat_get_add {c : Category} {n : UInt64} (h : p.sum + n.toNat ≤ ceiling) (g : Category) :
    ((p.add c n).get g).toNat = (p.get g).toNat + if g = c then n.toNat else 0 := by
  have hc := p.get_le_sum c
  have hs : (addSat (p.get c) n).toNat = (p.get c).toNat + n.toNat := toNat_addSat (by omega)
  cases c <;> cases g <;> simp_all [add, get]

/-- A charge adds to the sum, if all of it fits in a word. -/
theorem sum_add {c : Category} {n : UInt64} (h : p.sum + n.toNat ≤ ceiling) :
    (p.add c n).sum = p.sum + n.toNat := by
  have hg := toNat_get_add h (c := c)
  simp only [sum, Category.all, List.foldl, hg]
  cases c <;> simp <;> omega

/-- Profiles are added category by category. -/
theorem toNat_get_merge (h : p.sum + q.sum ≤ ceiling) (g : Category) :
    ((p.merge q).get g).toNat = (p.get g).toNat + (q.get g).toNat := by
  rw [sum_eq, sum_eq] at h
  have ho := toNat_addSat (m := p.opcode) (n := q.opcode) (by omega)
  have hr := toNat_addSat (m := p.storageRead) (n := q.storageRead) (by omega)
  have hw := toNat_addSat (m := p.storageWrite) (n := q.storageWrite) (by omega)
  have hc := toNat_addSat (m := p.callOverhead) (n := q.callOverhead) (by omega)
  cases g <;> simpa [merge, Category.all, add, get]

/-- Profiles that are merged add up, if all of it fits in a word. -/
theorem sum_merge (h : p.sum + q.sum ≤ ceiling) : (p.merge q).sum = p.sum + q.sum := by
  have hg := toNat_get_merge h
  simp only [sum, Category.all, List.foldl, hg]
  omega

/-- The total of a profile is its sum, if this fits in a word. -/
theorem toNat_total (h : p.sum ≤ ceiling) : p.total.toNat = p.sum := by
  rw [sum_eq] at h ⊢
  have h₁ : (addSat 0 p.opcode).toNat = p.opcode.toNat := by
    rw [toNat_addSat (by simp; omega)]
    simp
  have h₂ := toNat_addSat (m := addSat 0 p.opcode) (n := p.storageRead) (by omega)
  have h₃ := toNat_addSat (m := addSat (addSat 0 p.opcode) p.storageRead) (n := p.storageWrite)
    (by omega)
  have h₄ := toNat_addSat (n := p.callOverhead)
    (m := addSat (addSat (addSat 0 p.opcode) p.storageRead) p.storageWrite) (by omega)
  simp only [total, Category.all, List.foldl, get]
  omega

end Profile

namespace Credits

variable {k k' j : Credits}

/-- What was used fits into the budget, and is the sum of the categories. -/
structure Conserved (k : Credits) : Prop where
  within : k.used.toNat ≤ k.budget.toNat
  sum : k.profile.sum = k.used.toNat

theorem conserved_new (n : UInt64) : (new n).Conserved := ⟨Nat.zero_le _, by rfl⟩

/-- No more is spent than there is. -/
theorem Conserved.used_le (h : k.Conserved) : k.used ≤ k.budget :=
  UInt64.le_iff_toNat_le.2 h.within

/-- All that was spent is accounted for by category. -/
theorem Conserved.total (h : k.Conserved) : k.profile.total = k.used := by
  have hb := k.used.toNat_lt
  apply UInt64.toNat_inj.1
  rw [Profile.toNat_total (by rw [h.sum, ceiling]; omega), h.sum]

/-- What a charge comes to, in each category. -/
theorem Conserved.charge (h : k.Conserved) {c : Category} {n : UInt64}
    (hc : k.charge c n = .ok k') : k'.Conserved ∧ k'.budget = k.budget ∧
      k'.used.toNat = k.used.toNat + n.toNat ∧
      ∀ g, (k'.profile.get g).toNat = (k.profile.get g).toNat + if g = c then n.toNat else 0 := by
  have hb := k.budget.toNat_lt
  rcases charge_cases h.within c n with ⟨_, he⟩ | ⟨hn, he⟩ <;> rw [he] at hc <;> cases hc
  have hp : k.profile.sum + n.toNat ≤ ceiling := by
    rw [h.sum, ceiling]
    omega
  have hu := toNat_add_of_le hn
  refine ⟨⟨?_, ?_⟩, rfl, hu, Profile.toNat_get_add hp⟩
  · dsimp only
    omega
  · dsimp only
    rw [Profile.sum_add hp, hu, h.sum]

/-- What the payment for a nested execution comes to, in each category. -/
theorem Conserved.absorb (h : k.Conserved) (hj : j.Conserved)
    (hn : j.used.toNat ≤ k.remaining.toNat) : (k.absorb j.used j.profile).Conserved ∧
      (k.absorb j.used j.profile).used.toNat = k.used.toNat + j.used.toNat ∧
      ∀ g, ((k.absorb j.used j.profile).profile.get g).toNat =
        (k.profile.get g).toNat + (j.profile.get g).toNat := by
  have hb := k.budget.toNat_lt
  have hw := h.within
  rw [toNat_remaining hw] at hn
  have hl : k.used.toNat + j.used.toNat ≤ k.budget.toNat := by omega
  have hp : k.profile.sum + j.profile.sum ≤ ceiling := by
    rw [h.sum, hj.sum, ceiling]
    omega
  have hu := toNat_add_of_le hl
  rw [absorb_eq hl]
  refine ⟨⟨?_, ?_⟩, hu, Profile.toNat_get_merge hp⟩
  · dsimp only
    omega
  · dsimp only
    rw [Profile.sum_merge hp, hu, h.sum, hj.sum]

/-- How credits change while a machine executes. -/
structure Conserves (k k' : Credits) : Prop where
  budget : k'.budget = k.budget
  keeps : k.Conserved → k'.Conserved ∧ k.used.toNat ≤ k'.used.toNat

theorem Conserves.refl (k : Credits) : k.Conserves k := ⟨rfl, fun h => ⟨h, Nat.le_refl _⟩⟩

/-- What is done in turn conserves credits if each part does. -/
theorem Conserves.trans (h : k.Conserves j) (h' : j.Conserves k') : k.Conserves k' := by
  refine ⟨h'.budget.trans h.budget, fun hk => ?_⟩
  obtain ⟨hj, hu⟩ := h.keeps hk
  obtain ⟨hk', hu'⟩ := h'.keeps hj
  exact ⟨hk', Nat.le_trans hu hu'⟩

/-- A charge takes from the budget and adds to one category as much. -/
theorem conserves_charge {c : Category} {n : UInt64} (hc : k.charge c n = .ok k') :
    k.Conserves k' := by
  refine ⟨(charge_grows hc).budget, fun h => ?_⟩
  obtain ⟨hk, _, hu, _⟩ := h.charge hc
  exact ⟨hk, by omega⟩

/-- An execution that was given no more than what was left can be paid for, with all its
    categories. -/
theorem conserves_absorb (hj : k.Conserved → j.Conserved ∧ j.used.toNat ≤ k.remaining.toNat) :
    k.Conserves (k.absorb j.used j.profile) := by
  refine ⟨rfl, fun h => ?_⟩
  obtain ⟨hj, hn⟩ := hj h
  obtain ⟨hk, hu, _⟩ := h.absorb hj hn
  exact ⟨hk, by omega⟩

end Credits

/-! ### Executions -/

namespace Discipline

open Exec

variable {σ : Type}

/-- Credits are conserved. -/
def conserving (σ : Type) : Discipline σ where
  Goes m _ k _ :=
    (k.program = m.program ∧ k.registry = m.registry) ∧ m.credits.Conserves k.credits
  Stops m _ k _ := m.credits.Conserves k.credits
  refl m _ := ⟨⟨rfl, rfl⟩, .refl m.credits⟩
  trans h h' := ⟨⟨h'.1.1.trans h.1.1, h'.1.2.trans h.1.2⟩, h.2.trans h'.2⟩
  stops h := h.2
  after h h' := h.2.trans h'

/-- Requests cost nothing by themselves. -/
theorem conserving_ask (b : Backend σ) (r : Request) : (conserving σ).Kept (ask b r) := by
  intro m s
  rw [ask_apply]
  split
  · exact .ok ⟨⟨rfl, rfl⟩, .refl m.credits⟩
  · exact .error (.refl m.credits)

/-- A charge conserves credits, and so does one that is refused. -/
theorem conserving_charge (c : Category) (n : UInt64) : (conserving σ).Kept (charge c n) := by
  intro m s
  rw [charge_apply]
  split
  · next hc => exact .ok ⟨⟨rfl, rfl⟩, Credits.conserves_charge hc⟩
  · exact .error (.refl m.credits)

/-- However a nested execution ends, its credits are conserved, and it has used no more
    than what was left for it. -/
theorem conserved_nested {x : Exec σ Unit} (hx : (conserving σ).Kept x) {m : Machine}
    (hm : m.credits = .new 0) (e : Entry) (args : List Value) (n : UInt64) (s : σ) :
    let k := ((do begin e args n; x) m s).1.2
    k.credits.Conserved ∧ k.credits.used.toNat ≤ n.toNat := by
  dsimp only
  rw [begin_apply]
  rcases m.begin_budget e args n n with ⟨a, ha, _⟩ | ⟨a, k, _, ha, _⟩ | ⟨k, _, ha, _⟩ <;> rw [ha]
  · rw [hm]
    exact ⟨Credits.conserved_new 0, Nat.zero_le _⟩
  · exact ⟨Credits.conserved_new n, Nat.zero_le _⟩
  · have hc : (Credits.new n).Conserves (x { k with credits := .new n } s).1.2.credits :=
      (hx { k with credits := .new n } s).stopped
    obtain ⟨hk, _⟩ := hc.keeps (Credits.conserved_new n)
    have hu := hk.within
    rw [hc.budget] at hu
    exact ⟨hk, hu⟩

/-- A nested execution gets what is left to its caller, which absorbs what it has spent. -/
theorem conserving_delegate {x : Exec σ Unit} (hx : (conserving σ).Kept x) (c : Address)
    (p : Program) (n : UInt64) (args : List Value) :
    (conserving σ).Kept (delegate x c p n args) := by
  intro m s
  have hk := conserved_nested hx (m := callee m c p) rfl (.index n) args m.credits.remaining s
  rw [delegate_apply]
  generalize (do begin (.index n) args m.credits.remaining; x) (callee m c p) s = a at hk
  obtain ⟨⟨r, k⟩, u⟩ := a
  have hc : m.credits.Conserves (m.credits.absorb k.credits.used k.credits.profile) :=
    Credits.conserves_absorb fun _ => hk
  rcases r with e | v
  · exact .error hc
  · exact .ok ⟨⟨rfl, rfl⟩, hc⟩

/-- Hence every instruction conserves credits. -/
theorem conserving_rules (b : Backend σ) : (conserving σ).Rules b :=
  Calm.rules
    { calm := fun m _ _ _ _ _ _ _ => ⟨⟨rfl, rfl⟩, .refl m.credits⟩
      fixed := fun h => h.1
      marked := id
      opcode := conserving_charge .opcode
      callOverhead := conserving_charge .callOverhead
      requests := (asks_of_kept (conserving_ask b) conserving_charge).requests
      newMap := fun m s _ _ _ i =>
        (asks_of_kept (conserving_ask b) conserving_charge).newMap .newmap i m s
      delegate := fun hx m s c p _ n args => conserving_delegate hx c p n args m s }

end Discipline

namespace Exec

variable {σ : Type} (b : Backend σ)

/-- The credits of a nested execution are added to those of the machine that called for
    it, and none of them is cut off. -/
theorem delegate_used {m : Machine} (hm : m.credits.used.toNat ≤ m.credits.budget.toNat)
    (c : Address) (p : Program) (n : UInt64) (args : List Value) (s : σ) :
    (delegate (run b) c p n args m s).1.2.credits.used.toNat = m.credits.used.toNat +
      ((callee m c p).call b (.index n) args m.credits.remaining s).1.2.credits.used.toNat := by
  have hk := Machine.call_used_le b (.index n) args (m := callee m c p) rfl m.credits.remaining s
  rw [Credits.toNat_remaining hm] at hk
  rw [delegate_apply, ← Machine.call_eq]
  generalize (callee m c p).call b (.index n) args m.credits.remaining s = a at hk
  obtain ⟨⟨r, k⟩, u⟩ := a
  dsimp only at hk ⊢
  have hl : m.credits.used.toNat + k.credits.used.toNat ≤ m.credits.budget.toNat := by omega
  rw [Credits.absorb_eq hl]
  exact Credits.toNat_add_of_le hl

end Exec

namespace Machine

open Discipline

variable {σ : Type} {b : Backend σ} {m m' : Machine}

/-! ### Steps -/

/-- A turn conserves credits, whether it goes on or aborts. -/
theorem conserves_turn (m : Machine) (s : σ) :
    m.credits.Conserves (Exec.turn b m s).1.2.credits :=
  ((conserving_rules b).turn m s).stopped

/-- Whatever is done with a machine, its credits are accounted for. -/
theorem Reachable.conserved (h : m.Reachable b) : m.credits.Conserved := by
  induction h with
  | new c q registry depth => exact Credits.conserved_new 0
  | @step m m' h hs ih =>
    cases hs with
    | load p => exact ih
    | begin e args n =>
      rcases m.begin_budget e args n n with ⟨a, ha, _⟩ | ⟨a, k, _, ha, _⟩ | ⟨k, _, ha, _⟩ <;>
        rw [ha]
      · exact ih
      · exact Credits.conserved_new n
      · exact Credits.conserved_new n
    | turn s => exact ((conserves_turn m s).keeps ih).1

variable (b) in
/-- A step of a machine that goes on with the credits it has: a program is loaded, an
    execution is refused for another reason than its frame, or an instruction executed. -/
inductive Continues : Machine → Machine → Prop
  | load (m : Machine) (p : Program) : Continues m (m.load p)
  | refused {m : Machine} {e : Entry} {args : List Value} {n : UInt64} {a : Abort} :
    (m.begin e args n).1 = .error a → (∀ i j, a ≠ .stackOverflow i j) →
    Continues m (m.begin e args n).2
  | turn {m : Machine} (s : σ) : m.status = .running → Continues m (Exec.turn b m s).1.2

/-- What continues an execution is a step of the machine. -/
theorem Continues.step (h : m.Continues b m') : m.Step b m' := by
  cases h with
  | load p => exact .load m p
  | refused _ _ => exact .begin m _ _ _
  | turn s hm => exact .turn s hm

/-- Unless an execution is begun, credits are spent and never given back. -/
theorem Continues.used_le (h : m.Continues b m') (hm : m.Reachable b) :
    m.credits.used.toNat ≤ m'.credits.used.toNat := by
  cases h with
  | load p => exact Nat.le_refl _
  | @refused e args n a ha hn =>
    rcases begin_cases hm.tidy.capacity e args n with ⟨_, he, _⟩ | ⟨i, j, he⟩ |
      ⟨_, _, _, _, _, _, _, _, _, he⟩
    · rw [he]
    · rw [he] at ha
      cases ha
      exact absurd rfl (hn i j)
    · rw [he] at ha
      cases ha
  | turn s _ => exact ((conserves_turn m s).keeps hm.conserved).2

/-- What was used only grows while a machine goes on. -/
theorem used_le_of_continues (hm : m.Reachable b)
    (h : Relation.ReflTransGen (Continues b) m m') :
    m'.Reachable b ∧ m.credits.used.toNat ≤ m'.credits.used.toNat := by
  induction h with
  | refl => exact ⟨hm, Nat.le_refl _⟩
  | tail _ h ih => exact ⟨ih.1.step h.step, Nat.le_trans ih.2 (h.used_le ih.1)⟩

/-- A machine that has forgotten its credits was refused an execution. -/
theorem Reachable.overflow (hm : m.Reachable b) {e : Entry} {args : List Value} {n : UInt64}
    {i j : Nat} (h : (m.begin e args n).1 = .error (.stackOverflow i j)) :
    (m.begin e args n).2.credits = .new n := by
  rcases begin_cases hm.tidy.capacity e args n with ⟨a, he, ha⟩ | ⟨_, _, he⟩ |
    ⟨_, _, _, _, _, _, _, _, _, he⟩
  · rw [he] at h
    cases h
    rcases ha with ⟨_, ha⟩ | ⟨_, ha⟩ | ⟨_, _, _, ha⟩ <;> cases ha
  · rw [he]
  · rw [he]

/-- The credits of an execution are accounted for, and are no more than its budget. -/
theorem call_conserved (hm : m.credits = .new 0) (e : Entry) (args : List Value) (n : UInt64)
    (s : σ) : (m.call b e args n s).1.2.credits.Conserved ∧
      (m.call b e args n s).1.2.credits.used.toNat ≤ n.toNat := by
  rw [call_eq]
  exact conserved_nested (conserving_rules b).run hm e args n s

/-! ### A sample -/

/-- A program whose first method calls the second one, of its own contract. -/
def relay : Program where
  constants := #[.bytes (Address.bytes ⟨7⟩)]
  code := #[.of .copy [.stack 1, .constant 0], .of .copy [.stack 2, .imm 5],
    .of .xcall [.stack 1, .imm 1, .imm 1], .of .copy [.stack 0, .stack 1], .of .ret [],
    .of .add [.persistent 1, .persistent 1, .stack 1], .of .find [.stack 2, .stack 1],
    .of .copy [.stack 0, .persistent 1], .of .ret []]
  methods := #[⟨"main", 0, 3, 0, true⟩, ⟨"body", 5, 3, 1, true⟩]
  lines := #[]

/-- A machine that is about to execute its first instruction. -/
def starting : Machine :=
  (((new ⟨7⟩ false (fun c => if c = ⟨7⟩ then some relay else none) 0).load relay).begin
    (.index 0) [] 2000).2

/-- A machine that has executed one instruction. -/
def started : Machine := (Exec.turn Ledger.backend starting .sample).1.2

/-- A machine that is about to call. -/
def calling : Machine := (Exec.turn Ledger.backend started .sample).1.2

theorem continues_starting : starting.Continues Ledger.backend started :=
  .turn .sample (by decide +kernel)

theorem continues_started : started.Continues Ledger.backend calling :=
  .turn .sample (by decide +kernel)

/-- The sample has been made, loaded and begun. -/
theorem reachable_starting : starting.Reachable Ledger.backend :=
  .step (.step (.new ..) (.load ..)) (.begin ..)

/-- The sample is reached turn by turn. -/
theorem reachable_calling : calling.Reachable Ledger.backend :=
  (reachable_starting.step continues_starting.step).step continues_started.step

/-! ### All of it -/

/-- Credits are conserved. Whatever machine is reached, it has used no more than its budget,
    and the sum of its profile. What it has used does not decrease while it goes on with
    its budget, and all that a nested execution uses is added to it. An execution that is
    refused because of its frame has left the machine with a new budget. An outcome of a
    call tells no more credits than the call was given, and a profile of this sum. -/
theorem conservation {σ : Type} (b : Backend σ) :
    (∀ m : Machine, m.Reachable b →
      m.credits.used ≤ m.credits.budget ∧ m.credits.profile.total = m.credits.used) ∧
    (∀ m m' : Machine, m.Reachable b → Relation.ReflTransGen (Continues b) m m' →
      m.credits.used ≤ m'.credits.used) ∧
    (∀ m : Machine, m.Reachable b → ∀ (e : Entry) (args : List Value) (n : UInt64) (i j : Nat),
      (m.begin e args n).1 = .error (.stackOverflow i j) →
      (m.begin e args n).2.credits = .new n) ∧
    (∀ (m : Machine) (c : Address) (p : Program) (n : UInt64) (args : List Value) (s : σ),
      m.credits.used ≤ m.credits.budget →
      (Exec.delegate (Exec.run b) c p n args m s).1.2.credits.used.toNat = m.credits.used.toNat +
        ((Exec.callee m c p).call b (.index n) args
          m.credits.remaining s).1.2.credits.used.toNat) ∧
    ∀ (q : Call) (p : Program) (registry : Registry) (c : Settings) (s : σ) (o : Outcome),
      (q.execute b p registry c s).1 = .ok o →
      o.creditsUsed ≤ q.credits ∧ o.profile.total = o.creditsUsed := by
  refine ⟨fun m hm => ?_, fun m m' hm h => ?_, fun m hm e args n i j h => hm.overflow h,
    fun m c p n args s hm => ?_, fun q p registry c s o ho => ?_⟩
  · exact ⟨hm.conserved.used_le, hm.conserved.total⟩
  · exact UInt64.le_iff_toNat_le.2 (used_le_of_continues hm h).2
  · exact Exec.delegate_used b (UInt64.le_iff_toNat_le.1 hm) c p n args s
  · -- An outcome tells the credits of the machine that the attempt was made on, which was new.
    have hc := call_conserved (b := Meter.backend (Overlay.backend b)) (m := q.machine p registry)
      rfl q.entry q.args q.credits (.new q.readOnly, .empty, s)
    obtain rfl := Call.outcome_of_execute_ok ho
    exact ⟨UInt64.le_iff_toNat_le.2 hc.2, hc.1.total⟩

/-- A machine that calls itself. -/
theorem conservation_calling :
    let k := ((Exec.callee calling ⟨7⟩ relay).call Ledger.backend (.index 1) [.ofWord64 5]
      calling.credits.remaining .sample).1.2
    let m := (Exec.delegate (Exec.run Ledger.backend) ⟨7⟩ relay 1 [.ofWord64 5] calling .sample).1.2
    let x := Call.sample.execute Ledger.backend Call.sampleProgram (fun _ => none) .usual .sample
    (calling.credits.used = 4 ∧ calling.credits.profile.total = calling.credits.used) ∧
      starting.credits.used ≤ calling.credits.used ∧
      (calling.begin (.offset 0 2000) [] 50).2.credits = .new 50 ∧
      (k.credits.used = 275 ∧
        m.credits.used.toNat = calling.credits.used.toNat + k.credits.used.toNat) ∧
      ∃ o, x.1 = .ok o ∧ o.creditsUsed ≤ 1000 ∧ o.profile.total = o.creditsUsed := by
  obtain ⟨hr, hc, ho, hd, hx⟩ := conservation Ledger.backend
  have hs : (Call.sample.execute Ledger.backend Call.sampleProgram (fun _ => none) .usual
    .sample).1.isOk := by decide +kernel
  refine ⟨⟨by decide +kernel, (hr _ reachable_calling).2⟩, ?_, ?_, ⟨by decide +kernel, ?_⟩, ?_⟩
  · exact hc _ _ reachable_starting (.tail (.single continues_starting) continues_started)
  · exact ho calling reachable_calling (.offset 0 2000) [] 50 2000 1024 (by decide +kernel)
  · exact hd calling ⟨7⟩ relay 1 [.ofWord64 5] .sample (by decide +kernel)
  · cases he : (Call.sample.execute Ledger.backend Call.sampleProgram (fun _ => none) .usual
      .sample).1 with
    | error e =>
      rw [he] at hs
      cases hs
    | ok o => exact ⟨o, rfl, hx _ _ _ _ _ o he⟩

/-- A machine may forget what it has used without beginning an execution: one whose frame
    does not fit is refused after the credits were reset. -/
theorem not_used_le_of_refused : ¬∀ m m' : Machine, m.Reachable Ledger.backend →
    m.Step Ledger.backend m' → (∀ e args n, (m.begin e args n).1.isOk →
      m' ≠ (m.begin e args n).2) → m.credits.used ≤ m'.credits.used := by
  intro h
  have hu : ¬calling.credits.used ≤ (calling.begin (.offset 0 2000) [] 50).2.credits.used := by
    decide +kernel
  refine hu (h calling _ reachable_calling (.begin ..) fun e args n hb he => ?_)
  -- An execution that is begun has a frame.
  have hf : (calling.begin (.offset 0 2000) [] 50).2.frames.length = 0 := by decide +kernel
  rw [he] at hf
  rcases begin_cases reachable_calling.tidy.capacity e args n with ⟨_, ha, _⟩ | ⟨_, _, ha⟩ |
    ⟨_, _, _, _, _, _, _, _, _, ha⟩ <;> rw [ha] at hb hf
  · cases hb
  · cases hb
  · cases hf

end Machine

end CreditMachine
