import CreditMachine.Proofs.Commit
import CreditMachine.Proofs.Ledger
import CreditMachine.Storage.Rack

/-!
# Stacks of layers

Layers may be stacked on a ledger in any number and order (`Stack`). A user makes
requests to the layer on top, and may have any overlay of the stack committed
(`Action`); what the user sees are the requests with their answers
(`Stack.replies`).

A stack of *plain* layers, overlays and meters that are not read-only, shows the
register of its ledger when it is new (`Stack.shows_new`). From then on a request
to the top does to the register of the stack what it does to the register of a
bare ledger, and a commit of any layer leaves it as it is (`Stack.commit_shows`):
it only moves changes down. So the user sees no layers and no commits
(`Stack.replies_new`), and a commit makes the layer below answer for the overlay
(`Stack.replies_commit`).
-/

namespace CreditMachine

namespace Meter

variable {σ : Type} {b : Backend σ} {R : σ → Register → Prop}

/-- A meter that is not read-only, over a backend that shows registers. -/
def ShowsOver (R : σ → Register → Prop) (x : Meter × σ) (h : Register) : Prop :=
  x.1.readOnly = false ∧ R x.2 h

/-- A meter answers as what is below it. -/
theorem backend_shows (hb : b.Shows R) : (backend b).Shows (ShowsOver R) := by
  have step : ∀ {x h} (r : Request), ShowsOver R x h → ∃ a, (backend b r x).1 = .ok a ∧
      h.Answers r a ∧ ShowsOver R (backend b r x).2 (h.after r) := by
    rintro ⟨m, s⟩ h r ⟨hm, hs⟩
    obtain ⟨a, t, he, hr, ht⟩ := hb.reply r hs
    change m.readOnly = false at hm
    rw [backend, he]
    simp only [hm, Bool.and_false, Bool.false_eq_true, if_false]
    exact ⟨a, rfl, hr, rfl, ht⟩
  refine ⟨fun r hx => ?_, fun r hx => ?_⟩
  · obtain ⟨a, ha, hr, _⟩ := step r hx
    exact ⟨a, ha, hr⟩
  · obtain ⟨_, _, _, hn⟩ := step r hx
    exact hn

end Meter

/-- A kind of layers. -/
inductive Kind
  | overlay
  | meter (readOnly : Bool)
  | outage (g : Outage)

namespace Kind

/-- The states of a layer. -/
@[reducible] def State : Kind → Type
  | .overlay => Overlay
  | .meter _ => Meter
  | .outage _ => Outage

/-- The state of a new layer. -/
def new : (k : Kind) → k.State
  | .overlay => .empty
  | .meter readOnly => .new readOnly
  | .outage g => g

/-- A layer over the backend `b`. -/
def backend {σ : Type} (b : Backend σ) : (k : Kind) → Backend (k.State × σ)
  | .overlay => Overlay.backend b
  | .meter _ => Meter.backend b
  | .outage _ => Outage.backend b

/-- Commits a layer over the backend `b`. Only an overlay can be committed. -/
def commit {σ : Type} (b : Backend σ) :
    (k : Kind) → k.State × σ → Except StorageError Nat × k.State × σ
  | .overlay, (o, s) => o.commit b s
  | .meter _, x | .outage _, x => (.error Rack.missing, x)

/-- The layers that pass all requests on, sooner or later. -/
def Plain : Kind → Prop
  | .overlay => True
  | .meter readOnly => readOnly = false
  | .outage _ => False

/-- A layer over a backend that shows registers. -/
def ShowsOver {σ : Type} (R : σ → Register → Prop) : (k : Kind) → k.State × σ → Register → Prop
  | .overlay => Overlay.ShowsOver R
  | .meter _ => Meter.ShowsOver R
  | .outage _ => fun _ _ => False

variable {σ : Type} {b : Backend σ} {R : σ → Register → Prop}

/-- Each kind of layer shows what it should, above what is below it. -/
theorem backend_shows (hb : b.Shows R) : (k : Kind) → (k.backend b).Shows (k.ShowsOver R)
  | .overlay => Overlay.backend_shows hb
  | .meter _ => Meter.backend_shows hb
  | .outage _ => ⟨fun _ hx => hx.elim, fun _ hx => hx.elim⟩

/-- A commit leaves the register of the stack as it is. -/
theorem commit_shows (hb : b.Shows R) (k : Kind) {x : k.State × σ} {h : Register}
    (hx : k.ShowsOver R x h) : k.ShowsOver R (k.commit b x).2 h := by
  cases k with
  | overlay =>
    obtain ⟨o, s⟩ := x
    obtain ⟨k, hs, ho⟩ := hx
    obtain ⟨t, he, ht, ho⟩ := Overlay.commit_shows hb hs ho
    rw [commit, he]
    exact ⟨h, ht, ho⟩
  | meter | outage => exact hx

/-- What is below may change as long as it shows the same registers. -/
theorem ShowsOver.below {k : Kind} {x : k.State} {s t : σ} {h : Register}
    (hx : k.ShowsOver R (x, s) h) (ht : ∀ g, R s g → R t g) : k.ShowsOver R (x, t) h := by
  cases k with
  | overlay =>
    obtain ⟨g, hs, ho⟩ := hx
    exact ⟨g, ht g hs, ho⟩
  | meter => exact ⟨hx.1, ht h hx.2⟩
  | outage => exact hx

/-- A new layer shows what is below it. -/
theorem shows_new {k : Kind} (hk : k.Plain) {s : σ} {h : Register} (hs : R s h) :
    k.ShowsOver R (k.new, s) h := by
  cases k with
  | overlay => exact ⟨h, hs, Overlay.shows_empty h⟩
  | meter readOnly => exact ⟨hk, hs⟩
  | outage g => exact absurd hk id

end Kind

/-- The states of a stack of layers, the top one first, on a ledger. -/
def Stack : List Kind → Type
  | [] => Ledger
  | k :: ks => k.State × Stack ks

namespace Stack

/-- New layers on the ledger `l`. -/
def new : (ks : List Kind) → Ledger → Stack ks
  | [], l => l
  | k :: ks, l => (k.new, new ks l)

/-- The top layer of a stack. -/
def backend : (ks : List Kind) → Backend (Stack ks)
  | [] => Ledger.backend
  | k :: ks => k.backend (backend ks)

/-- Commits the layer `i` of a stack, counted from the top, to the layer below
    it. -/
def commit : (ks : List Kind) → Nat → Stack ks → Except StorageError Nat × Stack ks
  | [], _, l => (.error Rack.missing, l)
  | k :: ks, 0, x => k.commit (backend ks) x
  | _ :: ks, i + 1, (x, s) =>
    let (a, s) := commit ks i s
    (a, x, s)

/-- A stack of layers shows the register `h`. -/
def Shows : (ks : List Kind) → Stack ks → Register → Prop
  | [] => Ledger.Shows
  | k :: ks => k.ShowsOver (Shows ks)

variable {ks : List Kind} {s : Stack ks} {h : Register}

/-- By induction on the layers: a stack answers as its register. -/
theorem backend_shows : (ks : List Kind) → (backend ks).Shows (Shows ks)
  | [] => Ledger.backend_shows
  | k :: ks => k.backend_shows (backend_shows ks)

/-- By induction on the layers: a new stack shows its ledger. -/
theorem shows_new (hk : ∀ k ∈ ks, k.Plain) {l : Ledger} (hl : l.Shows h) :
    Shows ks (new ks l) h := by
  induction ks with
  | nil => exact hl
  | cons k ks ih =>
    exact Kind.shows_new (hk k List.mem_cons_self)
      (ih fun k hk' => hk k (List.mem_cons_of_mem _ hk'))

/-- Committing a layer leaves the register of the stack as it is. -/
theorem commit_shows (i : Nat) (hs : Shows ks s h) : Shows ks (commit ks i s).2 h := by
  induction ks generalizing i h with
  | nil => exact hs
  | cons k ks ih =>
    cases i with
    | zero => exact Kind.commit_shows (backend_shows ks) k hs
    | succ i => exact Kind.ShowsOver.below hs fun g hg => ih i hg

end Stack

/-! ### Actions -/

/-- What a user of a stack does. -/
inductive Action
  /-- Makes a request to the top layer. -/
  | request (r : Request)
  /-- Searches the cell of a contract that holds a value and was written last. -/
  | lookup (c : Address) (v : Value)
  /-- Commits a layer, counted from the top. -/
  | commit (i : Nat)
deriving DecidableEq

/-- Whether an action is a commit. -/
def Action.isCommit : Action → Bool
  | .commit _ => true
  | _ => false

namespace Stack

/-- What a user sees of some actions: the requests with their answers. -/
def replies (ks : List Kind) : List Action → Stack ks → List Exchange
  | [], _ => []
  | .request r :: l, s =>
    let (a, s) := backend ks r s
    .request r a :: replies ks l s
  | .lookup c v :: l, s =>
    let (a, s) := (backend ks).lookup c v s
    .lookup c v a :: replies ks l s
  | .commit i :: l, s => replies ks l (commit ks i s).2

/-- The stack after some actions. -/
def run (ks : List Kind) : List Action → Stack ks → Stack ks
  | [], s => s
  | .request r :: l, s => run ks l (backend ks r s).2
  | .lookup c v :: l, s => run ks l ((backend ks).lookup c v s).2
  | .commit i :: l, s => run ks l (commit ks i s).2

end Stack

/-! ### What a user sees -/

namespace Register

variable {h : Register} {V : Set Value}

/-- What a user sees of some actions on a register. -/
def replies : List Action → Register → List Exchange
  | [], _ => []
  | .request r :: l, h => .request r (.ok (h.answer r)) :: replies l (h.after r)
  | .lookup c v :: l, h => .lookup c v (.ok (h.holders c v).head?) :: replies l h
  | .commit _ :: l, h => replies l h

theorem replies_filter (l : List Action) (h : Register) :
    h.replies (l.filter fun a => !a.isCommit) = h.replies l := by
  induction l generalizing h with
  | nil => rfl
  | cons a l ih =>
    cases a with
    | request r => exact congrArg (_ :: ·) (ih _)
    | lookup c v => exact congrArg (_ :: ·) (ih _)
    | commit i => exact ih h

/-- What may be answered to a request stores and probes what the answer does. -/
theorem Answers.values {r : Request} {a : r.Answer} (ha : h.Answers r a) :
    (Exchange.request r (.ok a)).values = (Exchange.request r (.ok (h.answer r))).values := by
  cases r with
  | allocate => rw [show a = _ from ha]
  | _ => rfl

end Register

namespace Stack

variable {ks : List Kind} {s : Stack ks} {h : Register} {V : Set Value}

/-- A lookup finds the first of the cells that a search finds, and changes nothing. -/
theorem lookup_shows (hs : Shows ks s h) (c : Address) (v : Value) :
    ∃ l, ((backend ks).lookup c v s).1 = .ok l.head? ∧ h.Answers (.holders c v) l ∧
      Shows ks ((backend ks).lookup c v s).2 h := by
  obtain ⟨l, t, he, ha, ht⟩ := (backend_shows ks).reply (.holders c v) hs
  rw [Backend.lookup, he]
  exact ⟨l, rfl, ha, ht⟩

/-- A stack stores and probes the values that its register does. -/
theorem valuesOf_replies (hs : Shows ks s h) (l : List Action) :
    valuesOf (replies ks l s) = valuesOf (h.replies l) := by
  suffices he : (replies ks l s).flatMap Exchange.values = (h.replies l).flatMap Exchange.values by
    rw [valuesOf, he, valuesOf]
  induction l generalizing s h with
  | nil => rfl
  | cons a l ih =>
    cases a with
    | request r =>
      obtain ⟨a, ha, hr⟩ := (backend_shows ks).answer r hs
      simp only [replies, Register.replies, List.flatMap_cons]
      rw [ha, hr.values, ih ((backend_shows ks).after r hs)]
    | lookup c v =>
      obtain ⟨_, _, _, hn⟩ := lookup_shows hs c v
      exact congrArg ([v] ++ ·) (ih hn)
    | commit i => exact ih (commit_shows i hs)

/-- A stack answers as its register, if no two different values that are present,
    stored or probed have one digest. -/
theorem replies_eq (hs : Shows ks s h) (hV : V.InjOn Value.digest) (hh : h.values ⊆ V)
    (l : List Action) (hl : valuesOf (h.replies l) ⊆ V) : replies ks l s = h.replies l := by
  induction l generalizing s h with
  | nil => rfl
  | cons a l ih =>
    cases a with
    | request r =>
      -- A search finds no other values, as those of the register are in `V`.
      obtain ⟨a, ha, hr⟩ := (backend_shows ks).answer r hs
      obtain ⟨hv, hl⟩ := valuesOf_cons_subset.1 hl
      rw [← hr.values] at hv
      have he := hr.eq_answer (Register.clear_of_injOn hV hh hv)
      simp only [replies, Register.replies]
      rw [ha, he, ih ((backend_shows ks).after r hs) (Register.values_after_subset hr hh hv) hl]
    | lookup c v =>
      obtain ⟨k, hk, ha, hn⟩ := lookup_shows hs c v
      obtain ⟨hv, hl⟩ := valuesOf_cons_subset.1 hl
      have he := ha.eq_answer (Register.clear_of_injOn (a := k) hV hh hv)
      simp only [replies, Register.replies]
      rw [hk, he, ih hn hh hl]
      rfl
    | commit i => exact ih (commit_shows i hs) hh hl

/-- Some actions lead a stack that shows a register to one that does. -/
theorem run_shows (hs : Shows ks s h) (hh : h.values ⊆ V) (l : List Action)
    (hl : valuesOf (h.replies l) ⊆ V) : ∃ g, Shows ks (run ks l s) g ∧ g.values ⊆ V := by
  induction l generalizing s h with
  | nil => exact ⟨h, hs, hh⟩
  | cons a l ih =>
    cases a with
    | request r =>
      obtain ⟨a, ha, hr⟩ := (backend_shows ks).answer r hs
      obtain ⟨hv, hl⟩ := valuesOf_cons_subset.1 hl
      rw [← hr.values] at hv
      exact ih ((backend_shows ks).after r hs) (Register.values_after_subset hr hh hv) hl
    | lookup c v =>
      obtain ⟨_, _, _, hn⟩ := lookup_shows hs c v
      exact ih hn hh (valuesOf_cons_subset.1 hl).2
    | commit i => exact ih (commit_shows i hs) hh hl

end Stack

end CreditMachine
