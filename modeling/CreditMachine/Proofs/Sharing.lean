import CreditMachine.Proofs.Contracts
import CreditMachine.Proofs.Recovery
import CreditMachine.Storage.Rack

/-!
# Sessions over one ledger

Several overlays stand on one ledger (`Rack.sharing`), each used by a session of its own. The
sessions take turns in any order, and commit at any time (`Rack.performAll`), so that a session
may find below its overlay what others have committed after it has read there.

If no two sessions use the same contract, none sees the others. An overlay depends on the
contracts that it is used for (`Backend.Alike.perform`), and changes no others
(`Ledger.account_perform`). So a session over the shared ledger and the same session alone stay
in step, turn by turn (`Rack.performAll_sharing`); its replies, and what becomes of its
contracts, do not depend on the order of the turns (`Rack.performAll_independent`).
-/

namespace CreditMachine

variable {σ τ : Type} {A : Address → Prop} {R : σ → τ → Prop} {b : Backend σ} {d : Backend τ}

/-! ### Backends that answer alike -/

/-- Requests about contracts in `A` are answered alike in related states, which stay related. -/
def Backend.Alike (A : Address → Prop) (R : σ → τ → Prop) (b : Backend σ) (d : Backend τ) : Prop :=
  ∀ ⦃r s t⦄, A r.contract → R s t → (b r s).1 = (d r t).1 ∧ R (b r s).2 (d r t).2

namespace Overlay

/-- An operation is about a contract in `A`. A commit is about what the overlay holds. -/
def Op.Within (A : Address → Prop) : Op → Prop
  | .request r => A r.contract
  | .lookup c _ => A c
  | .commit => True

instance [DecidablePred A] : DecidablePred (Op.Within A)
  | .request r => inferInstanceAs (Decidable (A r.contract))
  | .lookup c _ => inferInstanceAs (Decidable (A c))
  | .commit => inferInstanceAs (Decidable True)

/-- The overlays are the same, and the states below are related. -/
def Over (R : σ → τ → Prop) (x : Overlay × σ) (y : Overlay × τ) : Prop :=
  x.1 = y.1 ∧ R x.2 y.2

theorem Within.settled (o : Overlay) : o.settled.Within A :=
  ⟨fun _ h => absurd h Std.ExtTreeSet.not_mem_empty, fun _ h => nomatch h⟩

/-- An operation about a contract changes cells of this contract only. -/
theorem Within.perform {o : Overlay} (h : o.Within A) {p : Op} (hp : p.Within A) (s : σ) :
    (perform b p (o, s)).2.1.Within A := by
  cases p with
  | request r => exact h.backend hp s
  | lookup c v =>
    have hn := h.backend (b := b) (r := .holders c v) hp s
    rw [Overlay.perform, Backend.lookup]
    exact hn
  | commit =>
    rw [Overlay.perform, commit]
    generalize b.replay o.changes s = x
    obtain ⟨_ | _, t⟩ := x
    · exact h
    · exact Within.settled o

end Overlay

namespace Backend.Alike

open Overlay

variable (hb : Backend.Alike A R b d)

include hb

/-- Requests that are alike one by one are alike in turn. -/
theorem replay {rs : List Request} (hr : ∀ r ∈ rs, A r.contract) {s : σ} {t : τ} (h : R s t) :
    (b.replay rs s).1 = (d.replay rs t).1 ∧ R (b.replay rs s).2 (d.replay rs t).2 := by
  induction rs generalizing s t with
  | nil => exact ⟨rfl, h⟩
  | cons r rs ih =>
    have hn := hb (hr r List.mem_cons_self) h
    rw [Backend.replay, Backend.replay]
    generalize b r s = x at hn
    generalize d r t = y at hn
    obtain ⟨_ | _, s⟩ := x <;> obtain ⟨_, t⟩ := y <;> obtain ⟨rfl, h⟩ := hn
    · exact ⟨rfl, h⟩
    · exact ih (fun r h => hr r (List.mem_cons_of_mem _ h)) h

/-- A cell is asked for below, unless it is known, and the answers are alike. -/
theorem fetch (o : Overlay) {p : Place} (hp : A p.owner) {s : σ} {t : τ} (h : R s t) :
    (o.fetch b p s).1 = (o.fetch d p t).1 ∧ Over R (o.fetch b p s).2 (o.fetch d p t).2 := by
  rw [Overlay.fetch, Overlay.fetch]
  cases o.known? p with
  | some v => exact ⟨rfl, rfl, h⟩
  | none =>
    have hn := hb (r := .read p.owner p.cell) hp h
    dsimp only
    generalize b _ s = x at hn
    generalize d _ t = y at hn
    obtain ⟨_ | _, s⟩ := x <;> obtain ⟨_, t⟩ := y <;> obtain ⟨rfl, h⟩ := hn <;>
      exact ⟨rfl, rfl, h⟩

/-- Overlays answer alike over backends that do. -/
theorem overlay : Backend.Alike A (Over R) (Overlay.backend b) (Overlay.backend d) := by
  rintro r ⟨o, s⟩ ⟨_, t⟩ hr ⟨rfl, h⟩
  cases r with
  | read c x => exact hb.fetch o (p := ⟨c, x⟩) hr h
  | write | erase | eraseEntry => exact ⟨rfl, rfl, h⟩
  | allocate c i =>
    have hn := hb.fetch o (p := ⟨c, .root i⟩) hr h
    rw [Overlay.backend, Overlay.backend]
    dsimp only at hn ⊢
    generalize o.fetch b ⟨c, .root i⟩ s = x at hn
    generalize o.fetch d ⟨c, .root i⟩ t = y at hn
    rcases x with ⟨_ | _ | _, _, s⟩ <;> obtain ⟨_, _, t⟩ := y <;>
      obtain ⟨rfl, rfl, h⟩ := hn <;> exact ⟨rfl, rfl, h⟩
  | holders c v =>
    have hn := hb (r := .holders c v) hr h
    rw [Overlay.backend, Overlay.backend]
    dsimp only at hn ⊢
    generalize b (.holders c v) s = x at hn
    generalize d (.holders c v) t = y at hn
    obtain ⟨_ | _, s⟩ := x <;> obtain ⟨_, t⟩ := y <;> obtain ⟨rfl, h⟩ := hn <;>
      exact ⟨rfl, rfl, h⟩

/-- So operations have the same replies. -/
theorem perform {p : Op} (hp : p.Within A) {o : Overlay} (ho : o.Within A) {s : σ} {t : τ}
    (h : R s t) :
    (Overlay.perform b p (o, s)).1 = (Overlay.perform d p (o, t)).1 ∧
      Over R (Overlay.perform b p (o, s)).2 (Overlay.perform d p (o, t)).2 := by
  cases p with
  | request r =>
    obtain ⟨ha, hn⟩ := hb.overlay (s := (o, s)) (t := (o, t)) hp ⟨rfl, h⟩
    rw [Overlay.perform, Overlay.perform]
    exact ⟨congrArg (Reply.exchange <| .request r ·) ha, hn⟩
  | lookup c v =>
    obtain ⟨ha, hn⟩ := hb.overlay (r := .holders c v) (s := (o, s)) (t := (o, t)) hp ⟨rfl, h⟩
    rw [Overlay.perform, Overlay.perform, Backend.lookup, Backend.lookup]
    exact ⟨congrArg (Reply.exchange <| .lookup c v <| ·.map List.head?) ha, hn⟩
  | commit =>
    have hn := hb.replay ho.changes h
    rw [Overlay.perform, Overlay.perform, commit, commit]
    generalize b.replay o.changes s = x at hn
    generalize d.replay o.changes t = y at hn
    obtain ⟨_ | _, s⟩ := x <;> obtain ⟨_, t⟩ := y <;> obtain ⟨rfl, h⟩ := hn <;>
      exact ⟨rfl, rfl, h⟩

end Backend.Alike

/-! ### Ledgers -/

namespace Ledger

open Overlay

/-- The ledgers agree about the contracts in `A`. -/
def AgreeOn (A : Address → Prop) (l k : Ledger) : Prop :=
  ∀ c, A c → l.account c = k.account c

/-- Ledgers that agree on some contracts still do when one contract is changed in both. -/
theorem AgreeOn.modify {l k : Ledger} (h : l.AgreeOn A k) (c : Address) (f : Account → Account) :
    (l.modify c f).AgreeOn A (k.modify c f) := by
  intro a ha
  rw [account_modify, account_modify, h a ha]

/-- A request for one contract looks at this contract only, and changes no other one. -/
theorem alike : Backend.Alike A (AgreeOn A) backend backend := by
  intro r l k hr h
  have hc : l.account r.contract = k.account r.contract := h _ hr
  cases r with
  | read c x => exact ⟨congrArg (fun a : Account => Except.ok a.cells[x]?) hc, h⟩
  | holders c v => exact ⟨congrArg (fun a : Account => Except.ok (a.recency.holders v)) hc, h⟩
  | write c | erase c | eraseEntry c => exact ⟨rfl, h.modify c _⟩
  | allocate c s =>
    have hg : l.get? c (.root s) = k.get? c (.root s) := congrArg (·.cells[Cell.root s]?) hc
    rw [backend, backend, hg]
    cases k.get? c (.root s) with
    | none => exact ⟨rfl, h.modify c _⟩
    | some _ => exact ⟨rfl, h⟩

end Ledger

open Overlay in
/-- An operation changes no contract below that the overlay holds no changes of. -/
theorem Ledger.account_perform {o : Overlay} (h : o.Within A) {c : Address} (hc : ¬ A c) (p : Op)
    (l : Ledger) : (perform Ledger.backend p (o, l)).2.2.account c = l.account c := by
  cases p with
  | request r =>
    rw [perform]
    exact congrArg (account · c) (backend_below r o l)
  | lookup c' v =>
    rw [perform, Backend.lookup]
    exact congrArg (account · c) (backend_below (.holders c' v) o l)
  | commit =>
    have hn : ∀ r ∈ o.changes, r.contract ≠ c := by
      rintro r hr rfl
      exact hc (h.changes r hr)
    have ha := account_replay hn l
    rw [perform, commit]
    generalize Ledger.backend.replay o.changes l = x at ha
    obtain ⟨_ | _, t⟩ := x <;> exact ha

/-! ### Racks -/

namespace Rack

open Overlay

/-- Performs an operation on the overlay at the layer `i`. -/
def perform (i : Nat) : Op → Rack → Reply × Rack
  | .request r, k =>
    let (a, k) := backend i r k
    (.exchange (.request r a), k)
  | .lookup c v, k =>
    let (a, k) := Backend.lookup (backend i) c v k
    (.exchange (.lookup c v a), k)
  | .commit, k =>
    let (a, k) := k.commit i
    (.commit a, k)

variable {n : Nat}

/-- Overlays that stand on one ledger. The overlay `i` is the layer `i + 1`. -/
def sharing (l : Ledger) (os : Fin n → Overlay) : Rack :=
  ⟨(.ledger l :: List.ofFn fun i => .overlay (os i) 0).toArray⟩

/-- Performs operations in turn, each on the overlay of its session. -/
def performAll : List (Fin n × Op) → Rack → List (Fin n × Reply) × Rack
  | [], k => ([], k)
  | (i, p) :: w, k =>
    let (a, k) := perform (i + 1) p k
    let (as, k) := performAll w k
    ((i, a) :: as, k)

/-- What is of the session `i`, in order. -/
def only {α : Type} (i : Fin n) (w : List (Fin n × α)) : List α :=
  w.filterMap fun (j, x) => if j = i then some x else none

section Only

variable {α : Type} (x : α) (w : List (Fin n × α))

@[simp] theorem only_cons_self (i : Fin n) : only i ((i, x) :: w) = x :: only i w := by
  simp [only]

theorem only_cons_of_ne {i j : Fin n} (h : j ≠ i) : only i ((j, x) :: w) = only i w := by
  simp [only, h]

theorem mem_only {x : α} {w : List (Fin n × α)} {i : Fin n} : x ∈ only i w ↔ (i, x) ∈ w := by
  simp [only]

end Only

/-- An operation on an overlay over the layer `j`. -/
theorem perform_overlay {k : Rack} {i j : Nat} {o : Overlay}
    (hk : k.layers[i]? = some (.overlay o j)) (hj : j < i) (p : Op) :
    perform i p k =
      let x := Overlay.perform (backend j) p (o, k)
      (x.1, x.2.2.set i (.overlay x.2.1 j)) := by
  have hb (r : Request) : backend i r k =
      let x := Overlay.backend (backend j) r (o, k)
      (x.1, x.2.2.set i (.overlay x.2.1 j)) := by
    rw [backend, hk]
    exact if_pos hj
  cases p with
  | request r =>
    rw [perform, hb]
    rfl
  | lookup c v =>
    rw [perform, Backend.lookup, hb]
    rfl
  | commit =>
    rw [perform, commit, hk]
    rfl

section Sharing

variable (l : Ledger) (os : Fin n → Overlay)

theorem getElem_sharing (i : Fin n) :
    (sharing l os).layers[i.val + 1]? = some (.overlay (os i) 0) := by
  simp [sharing]

theorem set_sharing (i : Fin n) (o : Overlay) :
    (sharing l os).set (i + 1) (.overlay o 0) = sharing l (Function.update os i o) := by
  have hs : (List.ofFn fun i => Layer.overlay (os i) 0).set i (.overlay o 0) =
      List.ofFn fun j => .overlay (Function.update os i o j) 0 := by
    refine List.ext_getElem (by simp) fun j hj _ => ?_
    rw [List.getElem_set, List.getElem_ofFn, List.getElem_ofFn, Function.update_apply]
    simp only [Fin.ext_iff, eq_comm]
    split <;> rfl
  rw [sharing, set, sharing, ← hs, List.setIfInBounds_toArray, List.set_cons_succ]

/-- The ledger at the bottom answers as the ledger. -/
theorem alike_sharing :
    Backend.Alike (fun _ => True) (fun k t => k = sharing t os) (backend 0) Ledger.backend := by
  rintro r _ t - rfl
  rw [backend]
  exact ⟨rfl, rfl⟩

/-- An operation of the session `i` is one on its overlay over the ledger. -/
theorem perform_sharing (i : Fin n) (p : Op) :
    perform (i + 1) p (sharing l os) =
      let x := Overlay.perform Ledger.backend p (os i, l)
      (x.1, sharing x.2.2 (Function.update os i x.2.1)) := by
  obtain ⟨ha, ho, hk⟩ := (alike_sharing os).perform (p := p) (by cases p <;> trivial)
    (o := os i) ⟨fun _ _ => trivial, fun _ _ => trivial⟩ (t := l) rfl
  rw [perform_overlay (getElem_sharing l os i) (Nat.succ_pos _)]
  dsimp only
  rw [ha, hk, ho, set_sharing]

end Sharing

/-! ### Sessions -/

/-- Each session has its own contracts. -/
def Apart (A : Fin n → Address → Prop) : Prop :=
  ∀ i j, i ≠ j → ∀ c, A i c → ¬ A j c

variable {A : Fin n → Address → Prop}

/-- Sessions over one ledger, and each alone over a ledger of its own, stay in step. -/
theorem performAll_sharing (hA : Apart A) {w : List (Fin n × Op)}
    (hw : ∀ x ∈ w, x.2.Within (A x.1)) {l : Ledger} {os : Fin n → Overlay} {ls : Fin n → Ledger}
    (ho : ∀ i, (os i).Within (A i)) (hl : ∀ i, l.AgreeOn (A i) (ls i)) :
    let x := performAll w (sharing l os)
    let y i := Overlay.performAll Ledger.backend (only i w) (os i, ls i)
    (∀ i, only i x.1 = (y i).1 ∧ (x.2.ledger 0).AgreeOn (A i) (y i).2.2) ∧
      ∀ c, (∀ i, ¬ A i c) → (x.2.ledger 0).account c = l.account c := by
  induction w generalizing l os ls with
  | nil => exact ⟨fun i => ⟨rfl, hl i⟩, fun _ _ => rfl⟩
  | cons e w ih =>
    obtain ⟨i, p⟩ := e
    have hp : p.Within (A i) := hw _ List.mem_cons_self
    obtain ⟨ha, he, hn⟩ := Ledger.alike.perform hp (ho i) (hl i)
    have ho' := (ho i).perform (b := Ledger.backend) hp l
    have hc {c} (hc : ¬ A i c) := Ledger.account_perform (ho i) hc p l
    dsimp only
    rw [performAll, perform_sharing]
    generalize Overlay.perform Ledger.backend p (os i, l) = x at ha he hn ho' hc
    have hos (j : Fin n) : (Function.update os i x.2.1 j).Within (A j) := by
      by_cases hj : j = i
      · subst hj
        rwa [Function.update_self]
      · rw [Function.update_of_ne hj]
        exact ho j
    -- The other sessions do not see what has changed in the shared ledger.
    have hls (j : Fin n) : x.2.2.AgreeOn (A j)
        (Function.update ls i (Overlay.perform Ledger.backend p (os i, ls i)).2.2 j) := by
      by_cases hj : j = i
      · subst hj
        rwa [Function.update_self]
      · rw [Function.update_of_ne hj]
        exact fun c hj' => (hc (hA j i hj c hj')).trans (hl j c hj')
    obtain ⟨hr, hk⟩ := ih (fun x hx => hw x (List.mem_cons_of_mem _ hx)) hos hls
    dsimp only at hr hk ⊢
    generalize performAll w (sharing x.2.2 (Function.update os i x.2.1)) = z at hr hk
    refine ⟨fun j => ?_, fun c hA => (hk c hA).trans (hc (hA i))⟩
    obtain ⟨hr, hf⟩ := hr j
    by_cases hj : j = i
    · subst hj
      rw [Function.update_self, Function.update_self, he] at hr hf
      rw [only_cons_self, only_cons_self, Overlay.performAll, ha, hr]
      exact ⟨rfl, hf⟩
    · rw [Function.update_of_ne hj, Function.update_of_ne hj] at hr hf
      rw [only_cons_of_ne _ _ (Ne.symm hj), only_cons_of_ne _ _ (Ne.symm hj)]
      exact ⟨hr, hf⟩

/-- Sessions that use different contracts are independent, in whatever order they take turns and
    whenever they commit. Each of them has the replies that it has alone on the ledger as it was
    at the start, and at the end the ledger has the same cells, found in the same order. -/
theorem performAll_independent (hA : Apart A) (l : Ledger) {w : List (Fin n × Op)}
    (hw : ∀ x ∈ w, x.2.Within (A x.1)) :
    let start := sharing l fun _ : Fin n => .empty
    let x := performAll w start
    (∀ i, only i x.1 = (Overlay.performAll Ledger.backend (only i w) (.empty, l)).1) ∧
      ∀ w' : List (Fin n × Op), (∀ i, only i w' = only i w) →
        let y := performAll w' start
        ∀ c, (y.2.ledger 0).cells c = (x.2.ledger 0).cells c ∧
          ∀ v, (y.2.ledger 0).holders c v = (x.2.ledger 0).holders c v := by
  intro start x
  have ho (i : Fin n) : Overlay.empty.Within (A i) := within_empty
  have hl (i : Fin n) : l.AgreeOn (A i) l := fun _ _ => rfl
  have hs {w : List (Fin n × Op)} (hw : ∀ x ∈ w, x.2.Within (A x.1)) :=
    performAll_sharing hA hw ho hl
  obtain ⟨hx, hk⟩ := hs hw
  refine ⟨fun i => (hx i).1, ?_⟩
  intro w' ho y c
  have hw' : ∀ x ∈ w', x.2.Within (A x.1) := by
    rintro ⟨i, p⟩ hp
    rw [← mem_only, ho, mem_only] at hp
    exact hw _ hp
  obtain ⟨hy, hk'⟩ := hs hw'
  have ha : (y.2.ledger 0).account c = (x.2.ledger 0).account c := by
    -- A contract belongs to one session at most, which decides what becomes of it; or else to none,
    -- and nothing does.
    by_cases hc : ∃ i, A i c
    · obtain ⟨i, hc⟩ := hc
      have hy : (y.2.ledger 0).account c =
          (Overlay.performAll Ledger.backend (only i w') (.empty, l)).2.2.account c :=
        (hy i).2 c hc
      rw [ho] at hy
      exact hy.trans ((hx i).2 c hc).symm
    · have hn : ∀ i, ¬ A i c := fun i hi => hc ⟨i, hi⟩
      exact (hk' c hn).trans (hk c hn).symm
  refine ⟨?_, fun v => ?_⟩
  · rw [Ledger.cells, Ledger.cells, ha]
  · rw [Ledger.holders, Ledger.holders, ha]

/-- Two sessions search for the same value and commit what they have changed, and one of them
    after it has read below. -/
theorem performAll_independent_two :
    let w : List (Fin 2 × Op) := [
      (0, .request (.write ⟨7⟩ (.entry 2 4) (.ofWord64 5))), (1, .request (.read ⟨8⟩ (.root 1))),
      (1, .request (.allocate ⟨8⟩ 1)), (0, .lookup ⟨7⟩ (.ofWord64 5)), (0, .commit),
      (1, .request (.write ⟨8⟩ (.entry 1 3) (.ofWord64 5))), (0, .request (.erase ⟨7⟩ 2)),
      (1, .lookup ⟨8⟩ (.ofWord64 5)), (1, .commit), (0, .lookup ⟨7⟩ (.ofWord64 5)), (0, .commit)]
    let w' := w.filter (·.1 = 1) ++ w.filter (·.1 = 0)
    let start := sharing Ledger.sample fun _ : Fin 2 => .empty
    let x := performAll w start
    let y := performAll w' start
    ((x.2.ledger 0).holders ⟨7⟩ (.ofWord64 5) = [.root 1] ∧
        (x.2.ledger 0).holders ⟨8⟩ (.ofWord64 5) = [.entry 1 3]) ∧
      (∀ i, only i x.1 = (Overlay.performAll Ledger.backend (only i w) (.empty, .sample)).1) ∧
      ∀ c, (y.2.ledger 0).cells c = (x.2.ledger 0).cells c ∧
        ∀ v, (y.2.ledger 0).holders c v = (x.2.ledger 0).holders c v := by
  intro w w' start x y
  have hA : Apart fun (i : Fin 2) c => c = ⟨if i = 0 then 7 else 8⟩ := by
    rintro i j hij c rfl
    revert i j
    decide
  obtain ⟨hx, hy⟩ := performAll_independent hA .sample (w := w) (by decide)
  exact ⟨by decide +kernel, hx, hy w' (by decide)⟩

end Rack

end CreditMachine
