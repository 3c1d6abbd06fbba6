import CreditMachine.Proofs.Failures
import CreditMachine.Proofs.Metering

/-!
# Meters are transparent and exact

A meter stands between a user and a backend that may fail at any request. The user sees the
backend through it (`Meter.perform_eq`): the same answers, the same failures, and what the meter
has counted beside them. Only a meter that is read-only refuses something, all that may change
cells, and then the backend does not hear of it (`Meter.perform_refused`).

What has been counted is what the exchanges tell (`Usage.Counts`): how many of them were answered,
and the bytes of the values that were read, probed and written. Each count stops at the greatest
word. It is cut there each time that something is added, and that comes to the same as if the exact
sum was cut once (`Usage.Counts.append`). Both together are true of any number of demands
(`Meter.performAll_exact`).
-/

namespace CreditMachine

/-! ### Demands on a backend -/

namespace Backend

/-- What a backend may be asked for. -/
inductive Demand
  /-- A request. The same one is for all cells of a contract, roots and entries. -/
  | request (r : Request)
  /-- The cell of a contract that holds a value and was written last. -/
  | lookup (c : Address) (v : Value)
deriving DecidableEq

/-- Whether a demand may change cells. -/
def Demand.mutates : Demand → Bool
  | .request r => r.mutates
  | .lookup .. => false

/-- Whether a demand reaches what is below a meter. -/
def Demand.passes (readOnly : Bool) (p : Demand) : Bool := !(p.mutates && readOnly)

variable {σ : Type} (b : Backend σ)

/-- The backend `b` is asked for something. -/
def perform : Demand → σ → Exchange × σ
  | .request r, s =>
    let (a, s) := b r s
    (.request r a, s)
  | .lookup c v, s =>
    let (a, s) := b.lookup c v s
    (.lookup c v a, s)

/-- The backend is asked for several things in turn, whether that fails or not. -/
def performAll : List Demand → σ → List Exchange × σ
  | [], s => ([], s)
  | p :: l, s =>
    let (e, s) := perform b p s
    let (es, s) := performAll l s
    (e :: es, s)

end Backend

/-! ### What is to be counted -/

namespace Exchange

/-- What was asked. -/
def demand : Exchange → Backend.Demand
  | .request r _ => .request r
  | .lookup c v _ => .lookup c v

/-- The value that was read, or probed. -/
def read? : Exchange → Option Value
  | .request (.read ..) (.ok v?) => v?
  | .request (.holders _ v) (.ok _) | .lookup _ v (.ok _) => some v
  | _ => none

/-- The value that was written. -/
def written? : Exchange → Option Value
  | .request (.write _ _ v) (.ok _) => some v
  | _ => none

/-- Whether something was read or searched, and found or not. -/
def isRead (e : Exchange) : Bool := !e.failed && !e.demand.mutates

/-- Whether cells were changed. -/
def isWrite (e : Exchange) : Bool := !e.failed && e.demand.mutates

/-- What a meter adds for an exchange. -/
def usage : Exchange → Usage
  | .request r (.ok a) => r.usage a
  | .lookup c v (.ok _) => (Request.holders c v).usage []
  | .request _ (.error _) | .lookup _ _ (.error _) => .zero

end Exchange

/-- The bytes of the encodings of some values. -/
def bytesOf : List Value → Nat
  | [] => 0
  | v :: l => (encode v).length + bytesOf l

/-- The bytes of values in a row add up. -/
theorem bytesOf_append (l k : List Value) : bytesOf (l ++ k) = bytesOf l + bytesOf k := by
  induction l with
  | nil => exact (Nat.zero_add _).symm
  | cons v l ih => rw [List.cons_append, bytesOf, bytesOf, ih, Nat.add_assoc]

/-- The bytes of what was read: none if nothing was there. -/
theorem bytesOf_toList (v? : Option Value) : bytesOf v?.toList = (v?.map Value.size).getD 0 := by
  cases v? with
  | none => rfl
  | some v => exact Value.length_encode v

/-- A sum is the exact one, or the greatest word. -/
theorem toNat_addSat_clamp (m : UInt64) (n : Nat) :
    (addSat m (clamp n)).toNat = min ceiling (m.toNat + n) := by
  rw [addSat, toNat_clamp, toNat_clamp]
  omega

namespace Usage

variable {u u' u'' : Usage} {l l' : List Exchange}

/-- From the usage `u` to `u'`, the exchanges `l` have been counted. -/
structure Counts (u : Usage) (l : List Exchange) (u' : Usage) : Prop where
  reads : u'.reads.toNat = min ceiling (u.reads.toNat + l.countP (·.isRead))
  writes : u'.writes.toNat = min ceiling (u.writes.toNat + l.countP (·.isWrite))
  bytesRead : u'.bytesRead.toNat =
    min ceiling (u.bytesRead.toNat + bytesOf (l.filterMap (·.read?)))
  bytesWritten : u'.bytesWritten.toNat =
    min ceiling (u.bytesWritten.toNat + bytesOf (l.filterMap (·.written?)))

/-- Nothing is counted if nothing happens. -/
theorem Counts.nil (u : Usage) : u.Counts [] u := by
  have h (n : UInt64) : n.toNat = min ceiling n.toNat := by
    have hn := n.toNat_lt
    rw [ceiling]
    omega
  exact ⟨h _, h _, h _, h _⟩

/-- It does not matter how often a count is cut. -/
theorem Counts.append (h : u.Counts l u') (h' : u'.Counts l' u'') : u.Counts (l ++ l') u'' where
  reads := by
    have := h.reads
    have := h'.reads
    rw [List.countP_append]
    omega
  writes := by
    have := h.writes
    have := h'.writes
    rw [List.countP_append]
    omega
  bytesRead := by
    have := h.bytesRead
    have := h'.bytesRead
    rw [List.filterMap_append, bytesOf_append]
    omega
  bytesWritten := by
    have := h.bytesWritten
    have := h'.bytesWritten
    rw [List.filterMap_append, bytesOf_append]
    omega

/-- What is added for an exchange is what it tells. -/
theorem usage_eq (e : Exchange) : e.usage =
    ⟨clamp e.isRead.toNat, clamp e.isWrite.toNat, clamp (bytesOf e.read?.toList),
      clamp (bytesOf e.written?.toList)⟩ := by
  rw [bytesOf_toList, bytesOf_toList]
  rcases e with ⟨r, _ | a⟩ | ⟨c, v, _ | a⟩
  · cases r <;> rfl
  · cases r <;> rfl
  · rfl
  · rfl

/-- A meter merges the usage of one exchange, and with it has counted the exchange. -/
theorem counts_merge (u : Usage) (e : Exchange) : u.Counts [e] (u.merge e.usage) := by
  rw [merge, usage_eq]
  refine ⟨?_, ?_, ?_, ?_⟩
  · rw [toNat_addSat_clamp, List.countP_singleton]
    cases e.isRead <;> rfl
  · rw [toNat_addSat_clamp, List.countP_singleton]
    cases e.isWrite <;> rfl
  · rw [toNat_addSat_clamp]
    cases h : e.read? <;> simp [h]
  · rw [toNat_addSat_clamp]
    cases h : e.written? <;> simp [h]

/-- A failure is accounted for with a usage of nothing. -/
theorem merge_zero (u : Usage) : u.merge .zero = u := by
  have h (n : UInt64) : addSat n 0 = n := UInt64.toNat_inj.1 (toNat_addSat_zero n)
  rw [merge, zero, h, h, h, h]

end Usage

/-! ### Meters -/

namespace Meter

open Backend

variable {σ : Type} {b : Backend σ} {m : Meter} {p : Demand}

/-- What a meter passes on is answered as by the backend below it, and counted. -/
theorem perform_eq (h : p.passes m.readOnly) (s : σ) :
    perform (backend b) p (m, s) =
      let (e, t) := perform b p s
      (e, { m with usage := m.usage.merge e.usage }, t) := by
  cases p with
  | request r =>
    rw [Demand.passes, Demand.mutates, Bool.not_eq_true'] at h
    rw [perform, perform, backend, h, if_neg Bool.false_ne_true]
    generalize b r s = x
    obtain ⟨_ | a, t⟩ := x
    · dsimp only [Exchange.usage]
      rw [Usage.merge_zero]
    · rfl
  | lookup c v =>
    rw [perform, perform, lookup, lookup, backend, Request.mutates, Bool.false_and,
      if_neg Bool.false_ne_true]
    generalize b (.holders c v) s = x
    obtain ⟨e | a, t⟩ := x
    · change _ = (_, { m with usage := m.usage.merge .zero }, _)
      rw [Usage.merge_zero]
    · rfl

/-- What a meter does not pass on is refused, and changes nothing. -/
theorem perform_refused (h : p.passes m.readOnly = false) (s : σ) :
    ∃ r, p = .request r ∧
      perform (backend b) p (m, s) = (.request r (.error (.readOnly r.operation)), m, s) := by
  cases p with
  | request r =>
    rw [Demand.passes, Demand.mutates, Bool.not_eq_false'] at h
    refine ⟨r, rfl, ?_⟩
    rw [perform, backend, h, if_pos rfl]
  | lookup c v => cases h

/-- A meter is asked for all of `l`, and has replied with `es`. The backend below it has been asked
    for what is passed on. -/
structure Relays (b : Backend σ) (m : Meter) (l : List Demand) (s : σ) (es : List Exchange)
    (m' : Meter) (t : σ) : Prop where
  demands : es.map (·.demand) = l
  passed : performAll b (l.filter (·.passes m.readOnly)) s =
    (es.filter (·.demand.passes m.readOnly), t)
  refused : ∀ r a, .request r a ∈ es → (Demand.request r).passes m.readOnly = false →
    a = .error (.readOnly r.operation)
  readOnly : m'.readOnly = m.readOnly
  counts : m.usage.Counts es m'.usage

/-- An exchange tells what was asked for. -/
theorem demand_perform (b : Backend σ) (p : Demand) (s : σ) : (perform b p s).1.demand = p := by
  cases p <;> rfl

/-- A meter passes on all demands that it does not refuse, in their order, and counts what comes
    back. The proof is by induction on the demands, over any backend. -/
theorem relays_performAll (m : Meter) (l : List Demand) (s : σ) :
    let x := performAll (backend b) l (m, s)
    Relays b m l s x.1 x.2.1 x.2.2 := by
  induction l generalizing m s with
  | nil => exact ⟨rfl, rfl, fun _ _ h => absurd h List.not_mem_nil, rfl, .nil _⟩
  | cons p l ih =>
    dsimp only
    rw [performAll]
    by_cases hp : p.passes m.readOnly
    · -- A demand that passes is counted with its answer, be it a failure.
      have ho := demand_perform b p s
      rw [perform_eq hp]
      generalize hx : perform b p s = x at ho
      obtain ⟨e, t⟩ := x
      change e.demand = p at ho
      have hn := ih { m with usage := m.usage.merge e.usage } t
      dsimp only at hn ⊢
      generalize performAll (backend b) l _ = y at hn
      obtain ⟨es, m', t'⟩ := y
      refine ⟨?_, ?_, ?_, hn.readOnly, (m.usage.counts_merge e).append hn.counts⟩
      · rw [List.map_cons, ho, hn.demands]
      · rw [List.filter_cons_of_pos hp, performAll, hx]
        dsimp only
        rw [hn.passed, List.filter_cons_of_pos (by rw [ho]; exact hp)]
      · intro r a hr hf
        rcases List.mem_cons.1 hr with rfl | hr
        · rw [show Demand.request r = p from ho, hp] at hf
          cases hf
        · exact hn.refused r a hr hf
    · -- A demand that is refused is answered here, and counts for nothing.
      rw [Bool.not_eq_true] at hp
      obtain ⟨r, rfl, he⟩ := perform_refused (b := b) hp s
      rw [he]
      have hn := ih m s
      dsimp only at hn ⊢
      generalize performAll (backend b) l _ = y at hn
      obtain ⟨es, m', t'⟩ := y
      have hf : ¬(Demand.request r).passes m.readOnly := by rw [hp]; exact Bool.false_ne_true
      refine ⟨congrArg (_ :: ·) hn.demands, ?_, ?_, hn.readOnly, ?_⟩
      · rw [List.filter_cons_of_neg hf, hn.passed, List.filter_cons_of_neg (by exact hf)]
      · intro r' a hr hf
        rcases List.mem_cons.1 hr with he | hr
        · cases he
          rfl
        · exact hn.refused r' a hr hf
      · have hc := m.usage.counts_merge (.request r (.error (.readOnly r.operation)))
        rw [Exchange.usage, Usage.merge_zero] at hc
        exact hc.append hn.counts

/-- A meter over any backend, which may fail at any request. If it is not read-only then it replies
    to all demands as the backend does, and leads the backend to the same state. If it is read-only
    then this is true of those that change nothing, and all others are refused without reaching the
    backend. In either case the meter counts what was answered: the reads and searches, the
    requests that may change cells, and the bytes of the values that were read or probed and of
    those that were written. Each count is the exact one, or the greatest word. -/
theorem performAll_exact (b : Backend σ) (m : Meter) (l : List Demand) (s : σ) :
    let x := performAll (backend b) l (m, s)
    (m.readOnly = false → performAll b l s = (x.1, x.2.2)) ∧
      (m.readOnly → x.1.map (·.demand) = l ∧
        performAll b (l.filter (!·.mutates)) s = (x.1.filter (!·.demand.mutates), x.2.2) ∧
        ∀ r a, .request r a ∈ x.1 → r.mutates → a = .error (.readOnly r.operation)) ∧
      x.2.1.readOnly = m.readOnly ∧ m.usage.Counts x.1 x.2.1.usage := by
  have h := relays_performAll (b := b) m l s
  dsimp only at h ⊢
  generalize performAll (backend b) l (m, s) = x at h ⊢
  have hp := h.passed
  refine ⟨fun hm => ?_, fun hm => ⟨h.demands, ?_, fun r a hr hf => h.refused r a hr ?_⟩, h.readOnly,
    h.counts⟩
  · simpa only [hm, Demand.passes, Bool.and_false, Bool.not_false, List.filter_true] using hp
  · simpa only [hm, Demand.passes, Bool.and_true] using hp
  · rw [Demand.passes, hm, Bool.and_true, Demand.mutates, hf, Bool.not_true]

/-- A ledger answers four reads and searches. The next one fails and is not counted. -/
theorem performAll_exact_outage :
    let b := Outage.backend Ledger.backend
    let s : Outage × Ledger := (⟨some 4, none, .backend ""⟩, .empty)
    let l : List Demand :=
      [.request (.write ⟨7⟩ (.root 1) (.int 7)), .request (.allocate ⟨7⟩ 2),
        .request (.write ⟨7⟩ (.entry 2 0) (.str "abc")), .request (.read ⟨7⟩ (.root 1)),
        .request (.read ⟨7⟩ (.entry 2 0)), .request (.read ⟨7⟩ (.root 99)), .lookup ⟨7⟩ .nil,
        .request (.eraseEntry ⟨7⟩ 2 0), .request (.erase ⟨7⟩ 2), .request (.read ⟨7⟩ (.root 1))]
    let x := performAll (backend b) l (.new false, s)
    let y := performAll (backend b) l (.new true, s)
    performAll b l s = (x.1, x.2.2) ∧ Usage.zero.Counts x.1 x.2.1.usage ∧
      x.2.1.usage = ⟨4, 5, 46, 45⟩ ∧
      performAll b (l.filter (!·.mutates)) s = (y.1.filter (!·.demand.mutates), y.2.2) ∧
      Usage.zero.Counts y.1 y.2.1.usage ∧ y.2.1.usage = ⟨4, 0, 1, 0⟩ := by
  intro b s l x y
  obtain ⟨hw, -, -, hx⟩ := performAll_exact b (.new false) l s
  obtain ⟨-, hr, -, hy⟩ := performAll_exact b (.new true) l s
  exact ⟨hw rfl, hx, by decide +kernel, (hr rfl).2.1, hy, by decide +kernel⟩

end Meter

end CreditMachine
