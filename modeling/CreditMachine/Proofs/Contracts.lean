import CreditMachine.Proofs.Conservation
import CreditMachine.Proofs.Retry

/-!
# Contracts of their own

A machine makes requests for its own contract only, and the machines that it calls are
for contracts that are registered. So whatever requests for these contracts keep of a
storage is kept by a whole run, with the runs nested in it (`Machine.call_keeps_within`).

An overlay on which no other contracts are changed holds no changes of theirs
(`Overlay.Within`): its wipes and its staged changes stay apart by contract, although
they stand in one list, and are committed in one go. Hence a call leaves the cells of
every contract alone that is neither its own nor registered, and what is found of their
values (`Call.execute_frame`).
-/

namespace CreditMachine

variable {σ : Type} {A : Address → Prop} {I : σ → Prop} {b : Backend σ}

/-! ### Machines -/

/-- The contract of a machine, and those that it may call, are in `A`. -/
structure Machine.Within (A : Address → Prop) (m : Machine) : Prop where
  contract : A m.contract
  registry : ∀ c, (m.registry c).isSome → A c

namespace Machine

/-- Only the contract and the registry of a machine matter. -/
theorem Within.congr {m k : Machine} (h : m.Within A) (hc : k.contract = m.contract)
    (hr : k.registry = m.registry) : k.Within A :=
  ⟨hc ▸ h.contract, hr ▸ h.registry⟩

/-- A machine that is called works for a contract that the registry knows. -/
theorem Within.callee {m : Machine} (h : m.Within A) {c : Address} {p : Program}
    (hp : m.registry c = some p) : (Exec.callee m c p).Within A :=
  ⟨h.registry c (by rw [hp]; rfl), h.registry⟩

/-- A machine stays with its contract and its registry when it begins. -/
theorem begin_fixed (m : Machine) (e : Entry) (args : List Value) (n : UInt64) :
    (m.begin e args n).2.contract = m.contract ∧ (m.begin e args n).2.registry = m.registry := by
  unfold begin
  cases m.program with
  | none => exact ⟨rfl, rfl⟩
  | some p =>
    dsimp only
    cases target p args.length e with
    | error a => exact ⟨rfl, rfl⟩
    | ok t =>
      dsimp only
      split
      · exact ⟨rfl, rfl⟩
      · cases m.memory.push 0 t.frame with
        | error a => exact ⟨rfl, rfl⟩
        | ok k =>
          dsimp only
          cases passArgs 0 1 args k <;> exact ⟨rfl, rfl⟩

end Machine

namespace Discipline

open Exec

variable {α : Type}

/-- What holds of a storage is kept by machines within `A`. -/
def confining (A : Address → Prop) (I : σ → Prop) : Discipline σ where
  Goes m s k t := (k.program = m.program ∧ k.registry = m.registry) ∧ k.contract = m.contract ∧
    (m.Within A → I s → I t)
  Stops m s _ t := m.Within A → I s → I t
  refl _ _ := ⟨⟨rfl, rfl⟩, rfl, fun _ h => h⟩
  trans h h' := ⟨⟨h'.1.1.trans h.1.1, h'.1.2.trans h.1.2⟩, h'.2.1.trans h.2.1,
    fun hm hs => h'.2.2 (hm.congr h.2.1 h.1.2) (h.2.2 hm hs)⟩
  stops h := h.2.2
  after h h' hm hs := h' (hm.congr h.2.1 h.1.2) (h.2.2 hm hs)

/-- Charges ask for nothing. -/
theorem confining_charge (c : Category) (n : UInt64) : (confining A I).Kept (charge c n) := by
  intro m s
  rw [charge_apply]
  split
  · exact .ok ⟨⟨rfl, rfl⟩, rfl, fun _ h => h⟩
  · exact .error fun _ h => h

section Requests

variable (hb : ∀ r s, A r.contract → I s → I (b r s).2)

include hb

/-- A request for the contract of the machine. -/
theorem confining_ask {m : Machine} {r : Request} (hr : r.contract = m.contract) (s : σ) :
    (confining A I).Ends m s (ask b r m s) := by
  have hn := hb r s
  rw [ask_apply]
  generalize b r s = x at hn
  obtain ⟨_ | _, t⟩ := x
  · exact .error fun hm => hn (hr ▸ hm.contract)
  · exact .ok ⟨⟨rfl, rfl⟩, rfl, fun hm => hn (hr ▸ hm.contract)⟩

/-- A cell is read of the contract of the machine. -/
theorem confining_load (x : Cell) : (confining A I).Kept (load b x) := by
  intro m s
  rw [load, get_apply]
  refine (confining_ask hb rfl s).bind fun v? k t _ => ?_
  cases v? with
  | none => exact Kept.pure _ k t
  | some v => exact Kept.bind (confining_charge _ _) (fun _ => .pure _) k t

/-- What is done with the cells of the contract, one at a time. -/
theorem confining_requests : (confining A I).comparison.Requests b b where
  guard := kept_guard
  load := confining_load hb
  search v m s := by
    rw [search, get_apply]
    exact (confining_ask hb rfl s).bind fun l k t _ =>
      Kept.bind (confining_charge _ _) (fun _ => .pure _) k t
  store x v := .bind (confining_charge _ _) fun _ m s => confining_ask hb rfl s
  unstore i j m s := confining_ask hb rfl s
  erase i m s := confining_ask hb rfl s

/-- A new map is allocated and read for the contract of the machine. -/
theorem confining_newMap (i : Slot) : (confining A I).Kept (newMap b .newmap i) := by
  refine .bind (confining_charge _ _) fun _ m s => ?_
  rw [get_apply]
  refine (confining_ask hb rfl s).bind fun _ k t _ => ?_
  refine Kept.bind (confining_load hb _) (fun v? => ?_) k t
  split
  · exact .pure _
  · exact .throw _
  · exact .throw _

end Requests

/-- Another contract is called only if it is registered. -/
theorem confining_delegate {x : Exec σ Unit} (hx : (confining A I).Kept x) (m : Machine) (s : σ)
    (c : Address) (p : Program) (hp : m.registry c = some p) (n : UInt64) (args : List Value) :
    (confining A I).Ends m s (delegate x c p n args m s) := by
  have hk : m.Within A → I s →
      I ((do begin (.index n) args m.credits.remaining; x) (callee m c p) s).2 := by
    intro hm hs
    obtain ⟨hc, hr⟩ := (callee m c p).begin_fixed (.index n) args m.credits.remaining
    have hg := (hm.callee hp).congr hc hr
    rw [begin_apply]
    generalize (callee m c p).begin (.index n) args m.credits.remaining = a at hg
    obtain ⟨_ | _, g⟩ := a
    · exact hs
    · exact (hx g s).stopped hg hs
  rw [delegate_apply]
  generalize (do begin (.index n) args m.credits.remaining; x) (callee m c p) s = a at hk
  obtain ⟨⟨_ | _, g⟩, t⟩ := a
  · exact .error hk
  · exact .ok ⟨⟨rfl, rfl⟩, rfl, hk⟩

/-- Hence every request that is made in an execution, nested ones included, is for a contract that
    is allowed. -/
theorem confining_rules (hb : ∀ r s, A r.contract → I s → I (b r s).2) :
    (confining A I).Rules b :=
  Calm.rules
    { calm := fun _ _ _ _ _ _ _ _ => ⟨⟨rfl, rfl⟩, rfl, fun _ h => h⟩
      fixed := fun h => h.1
      marked := id
      opcode := confining_charge .opcode
      callOverhead := confining_charge .callOverhead
      requests := confining_requests hb
      newMap := fun m s _ _ _ i => confining_newMap hb i m s
      delegate := fun hx m s c p hp n args => confining_delegate hx m s c p hp n args }

end Discipline

/-- What requests for some contracts keep is kept by a machine for one of them, if it may
    call no others. -/
theorem Machine.call_keeps_within (hb : ∀ r s, A r.contract → I s → I (b r s).2) {m : Machine}
    (hm : m.Within A) (e : Entry) (args : List Value) (n : UInt64) {s : σ} (hs : I s) :
    I (m.call b e args n s).2 := by
  obtain ⟨hc, hr⟩ := m.begin_fixed e args n
  have hg := hm.congr hc hr
  rw [call]
  generalize m.begin e args n = a at hg
  obtain ⟨_ | _, g⟩ := a
  · exact hs
  · exact ((Discipline.confining_rules hb).run g s).stopped hg hs

/-! ### Overlays -/

namespace Overlay

/-- All changes that an overlay holds are of contracts in `A`. -/
structure Within (A : Address → Prop) (o : Overlay) : Prop where
  wiped : ∀ p ∈ o.wiped, A p.owner
  staged : ∀ x ∈ o.staged, A x.1.owner

variable {o : Overlay} {p : Place}

/-- An overlay without changes has none of another contract. -/
theorem within_empty : Overlay.empty.Within A :=
  ⟨fun _ h => absurd h Std.ExtTreeSet.not_mem_empty, fun _ h => nomatch h⟩

/-- A change of an allowed contract may be staged. -/
theorem Within.stage (h : o.Within A) (hp : A p.owner) (v : Option Value) :
    (o.stage p v).Within A where
  wiped := h.wiped
  staged x hx := by
    rcases List.mem_cons.1 hx with rfl | hx
    · exact hp
    · exact h.staged x (List.mem_of_mem_filter hx)

/-- A slot of an allowed contract may be wiped. -/
theorem Within.wipe (h : o.Within A) {c : Address} (hc : A c) (s : Slot) :
    (o.wipe c s).Within A where
  wiped q hq := by
    rw [Overlay.wipe_eq, Std.ExtTreeSet.mem_insert, Std.LawfulEqOrd.compare_eq_iff_eq] at hq
    rcases hq with rfl | hq
    · exact hc
    · exact h.wiped q hq
  staged x hx := by
    rcases List.mem_cons.1 hx with rfl | hx
    · exact hc
    · exact h.staged x (List.mem_of_mem_filter hx)

/-- Reads stage nothing, whatever they are of. -/
theorem Within.fetch (h : o.Within A) (p : Place) (s : σ) : (o.fetch b p s).2.1.Within A := by
  rw [Overlay.fetch]
  split
  · exact h
  · split
    · exact ⟨h.wiped, h.staged⟩
    · exact h

/-- A request for a contract changes cells of this contract only. -/
theorem Within.backend (h : o.Within A) {r : Request} (hr : A r.contract) (s : σ) :
    (backend b r (o, s)).2.1.Within A := by
  cases r with
  | read c x => exact h.fetch _ s
  | write c x v => exact h.stage hr _
  | erase c i => exact h.wipe hr i
  | eraseEntry c i k => exact h.stage hr _
  | allocate c i =>
    have hf := h.fetch (b := b) ⟨c, .root i⟩ s
    rw [Overlay.backend]
    generalize o.fetch b ⟨c, .root i⟩ s = x at hf ⊢
    rcases x with ⟨_ | _ | _, _, _⟩
    · exact hf
    · exact hf.stage hr _
    · exact hf
  | holders c v =>
    rw [Overlay.backend]
    generalize b (.holders c v) s = x
    obtain ⟨_ | _, _⟩ := x <;> exact h

/-- A commit makes requests for these contracts only. -/
theorem Within.changes (h : o.Within A) : ∀ r ∈ o.changes, A r.contract := by
  intro r hr
  rcases List.mem_append.1 hr with hr | hr
  · obtain ⟨p, hp, rfl⟩ := List.mem_map.1 hr
    exact h.wiped p (Std.ExtTreeSet.mem_toList.1 hp)
  · obtain ⟨⟨p, v⟩, hx, hc⟩ := List.mem_filterMap.1 hr
    have hp := h.staged _ (List.mem_reverse.1 hx)
    cases v with
    | some v =>
      cases hc
      exact hp
    | none =>
      obtain ⟨k, _, rfl⟩ := Option.map_eq_some_iff.1 hc
      exact hp

end Overlay

/-! ### Ledgers -/

namespace Ledger

/-- A request changes no other contract than its own. -/
theorem account_backend {r : Request} {d : Address} (hr : r.contract ≠ d) (l : Ledger) :
    (backend r l).2.account d = l.account d := by
  cases r with
  | read | holders => rfl
  | write c | erase c | eraseEntry c =>
    rw [backend, account_modify, if_neg (show c ≠ d from hr)]
  | allocate c s =>
    rw [backend]
    split
    · rfl
    · rw [account_modify, if_neg (show c ≠ d from hr)]

/-- Requests for other contracts leave a contract alone. -/
theorem account_replay {d : Address} {rs : List Request} (hr : ∀ r ∈ rs, r.contract ≠ d)
    (l : Ledger) : (backend.replay rs l).2.account d = l.account d := by
  induction rs generalizing l with
  | nil => rfl
  | cons r rs ih =>
    have ha := account_backend (hr r List.mem_cons_self) l
    rw [Backend.replay]
    generalize backend r l = x at ha
    obtain ⟨_ | _, l'⟩ := x
    · exact ha
    · exact (ih (fun r h => hr r (List.mem_cons_of_mem _ h)) l').trans ha

end Ledger

/-! ### Calls -/

namespace Call

variable (q : Call) (p : Program) (registry : Registry) (c : Settings) (l : Ledger)

/-- An attempt holds changes of the contract that is called and of registered ones. -/
theorem attempt_within (s : σ) : (q.attempt b p registry s).1.overlay.Within
    fun a => a = q.contract ∨ (registry a).isSome := by
  have hm : (q.machine p registry).Within fun a => a = q.contract ∨ (registry a).isSome :=
    ⟨.inl rfl, fun _ h => .inr h⟩
  refine Machine.call_keeps_within (I := fun x : Meter × Overlay × σ => x.2.1.Within _) ?_ hm
    q.entry q.args q.credits Overlay.within_empty
  rintro r ⟨k, o, t⟩ hr ho
  -- A meter passes a request on as it is, or not at all.
  have hn := ho.backend (b := b) hr t
  rw [Meter.backend]
  split
  · exact ho
  · generalize Overlay.backend b r (o, t) = x at hn ⊢
    obtain ⟨_ | _, _, _⟩ := x <;> exact hn

variable {q registry}

/-- A contract that is neither called nor known to the registry stays as it is. -/
theorem account_execute {d : Address} (hd : d ≠ q.contract) (hr : registry d = none) :
    (q.execute Ledger.backend p registry c l).2.account d = l.account d := by
  have ha := attempt_within (b := Ledger.backend) q p registry l
  by_cases he : q.entry.isIn p
  · rw [execute_of_isIn he, attempt_below]
    by_cases hc : q.commits (q.attempt Ledger.backend p registry l).1
    · rw [settle_below hc]
      refine Ledger.account_replay ?_ l
      rintro r hm rfl
      rcases ha.changes r hm with he | hs
      · exact hd he
      · rw [hr] at hs
        cases hs
    · rw [settle_snd (by simpa using hc)]
  · rw [execute, if_neg he]

variable (q registry) in
/-- Whatever a call does and however it ends, the cells of a contract are as before, and
    so is what is found of their values, unless the contract is the one that is called or a
    registered one. Without a registry, it is only the one that is called. -/
theorem execute_frame :
    (∀ d, d ≠ q.contract → registry d = none →
      let x := q.execute Ledger.backend p registry c l
      x.2.cells d = l.cells d ∧ ∀ v, x.2.holders d v = l.holders d v) ∧
    ∀ d, d ≠ q.contract →
      let x := q.execute Ledger.backend p (fun _ => none) c l
      x.2.cells d = l.cells d ∧ ∀ v, x.2.holders d v = l.holders d v := by
  have hf (g : Registry) (d : Address) (hd : d ≠ q.contract) (hr : g d = none) :
      let x := q.execute Ledger.backend p g c l
      x.2.cells d = l.cells d ∧ ∀ v, x.2.holders d v = l.holders d v := by
    have ha := account_execute p c l hd hr
    refine ⟨?_, fun v => ?_⟩
    · rw [Ledger.cells, Ledger.cells, ha]
    · rw [Ledger.holders, Ledger.holders, ha]
  exact ⟨hf registry, fun d hd => hf _ d hd rfl⟩

/-- Contract 5 has contract 7 change a cell, which contract 3 has as well. -/
theorem execute_frame_relay :
    let l := (Ledger.backend (.write ⟨3⟩ (.root 1) (.ofWord64 5)) .sample).2
    let q : Call := ⟨⟨5⟩, .index 0, [], 2000, false, false⟩
    let x := q.execute Ledger.backend Machine.relay
      (fun c => if c = ⟨7⟩ then some Machine.relay else none) .usual l
    let y := ({ q with contract := ⟨7⟩, entry := .index 1, args := [.ofWord64 5] } : Call).execute
      Ledger.backend Machine.relay (fun _ => none) .usual l
    (x.2.get? ⟨7⟩ (.root 1) = some (.ofWord64 10) ∧ x.2.cells ⟨3⟩ = l.cells ⟨3⟩ ∧
        ∀ v, x.2.holders ⟨3⟩ v = l.holders ⟨3⟩ v) ∧
      y.2.get? ⟨7⟩ (.root 1) = some (.ofWord64 10) ∧ y.2.cells ⟨3⟩ = l.cells ⟨3⟩ ∧
        ∀ v, y.2.holders ⟨3⟩ v = l.holders ⟨3⟩ v := by
  intro l q x y
  refine ⟨⟨by decide +kernel, ?_⟩, by decide +kernel, ?_⟩
  · exact (execute_frame q Machine.relay _ .usual l).1 ⟨3⟩ (by decide) rfl
  · exact (execute_frame _ Machine.relay (fun _ => none) .usual l).2 ⟨3⟩ (by decide)

end Call

end CreditMachine
