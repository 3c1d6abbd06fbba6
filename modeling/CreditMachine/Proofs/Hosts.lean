import CreditMachine.Proofs.Conservation

/-!
# Hosts

What a machine executes on its own, another one can execute in frames of its stack, above
those of a caller: it *hosts* the first one (`Machine.Hosts`). The stack of a host is that
of the caller, followed by that of its guest (`Memory.above`), and so are its frames. It has
spent what the caller had spent, and what its guest has (`Credits.Shares`). When the
outermost frame of the guest returns, so does the host, to the caller (`Machine.Served`).
-/

namespace CreditMachine

/-! ### The stack of a host -/

namespace Memory

/-- The memory with its stack above the slots `a`. -/
def above (a : Array Value) (k : Memory) : Memory := { k with stack := a ++ k.stack }

variable {a : Array Value} {k : Memory} {i : Nat} {n : UInt64}

theorem constant_above : (above a k).constant i n = k.constant i n := rfl

theorem slot_above : (above a k).slot (a.size + i) n = k.slot i n := by
  rw [slot, slot, above, Array.getElem?_append_right (Nat.le_add_right ..), Nat.add_sub_cancel_left]

theorem slots_above (l : Nat) : (above a k).slots (a.size + i) n l = k.slots i n l := by
  induction l generalizing i with
  | zero => rfl
  | succ l ih => rw [slots, slots, slot_above, Nat.add_assoc, ih]

/-- A slot of the guest is set above the slots of the caller, which stay. -/
theorem set_above {v : Value} : (above a k).set (a.size + i) v n = (k.set i v n).map (above a) := by
  have hs : (a ++ k.stack).setIfInBounds (a.size + i) v = a ++ k.stack.setIfInBounds i v := by
    rw [Array.setIfInBounds_append_right (Nat.le_add_right ..), Nat.add_sub_cancel_left]
  rw [set, set, above, Array.size_append]
  by_cases hi : i < k.stack.size
  · rw [if_pos (Nat.add_lt_add_left hi _), if_pos hi, hs]
    rfl
  · rw [if_neg (by omega), if_neg hi]
    rfl

theorem take_above : (above a k).stack.take (a.size + i) = a ++ k.stack.take i := by
  rw [above, Array.take_eq_extract, Array.extract_append, Array.extract_eq_self_of_le (by omega),
    Nat.add_sub_cancel_left, Nat.zero_sub]

theorem pop_above : (above a k).pop (a.size + i) = above a (k.pop i) := by
  rw [pop, take_above]
  rfl

/-- A frame that fits above other slots fits without them. -/
theorem push_above (hk : k.capacity = stackCapacity) {size : Nat} {l : Memory}
    (h : (above a k).push (a.size + i) size = .ok l) :
    ∃ l', k.push i size = .ok l' ∧ l = above a l' := by
  rcases Machine.push_cases (k := above a k) hk (a.size + i) size with ⟨_, _, he⟩ | ⟨hn, he⟩ <;>
    rw [he] at h <;> cases h
  refine ⟨_, Machine.push_of_le hk (by omega), ?_⟩
  rw [take_above, Array.size_append]
  have hs : a.size + i + size - (a.size + (k.stack.take i).size) =
      i + size - (k.stack.take i).size := by omega
  rw [hs, Array.append_assoc]
  rfl

/-- A frame changes nothing of the capacity. -/
theorem capacity_push {size : Nat} {l : Memory} (h : k.push i size = .ok l) :
    l.capacity = k.capacity := by
  obtain ⟨_, rfl⟩ := Machine.push_keeps h
  rfl

end Memory

/-- Arguments are passed to the same slots, above those of the caller. -/
theorem Machine.passArgs_above {a : Array Value} {k : Memory} {base i : Nat} {l : List Value} :
    passArgs (a.size + base) i l (k.above a) = (passArgs base i l k).map (Memory.above a) := by
  induction l generalizing i k with
  | nil => rfl
  | cons v l ih =>
    rw [passArgs, passArgs, Nat.add_assoc, Memory.set_above]
    cases k.set (base + i) v (stackBase + UInt64.ofNat i) with
    | error e => rfl
    | ok k => exact ih

/-! ### The credits of a host -/

namespace Credits

variable {c k q k' q' j : Credits} {n : UInt64}

/-- What a host has spent (`k`) is what its caller had (`c`), and what its guest has (`q`).
    The guest has at most what is left to the host. -/
structure Shares (c k q : Credits) : Prop where
  host : k.Conserved
  guest : q.Conserved
  budget : q.budget.toNat + c.used.toNat ≤ k.budget.toNat
  used : k.used.toNat = c.used.toNat + q.used.toNat
  profile : ∀ g, (k.profile.get g).toNat = (c.profile.get g).toNat + (q.profile.get g).toNat

/-- When a method has been entered, the guest has spent nothing, and what is left to it is left to
    the host. -/
theorem shares_new (hc : c.Conserved) (hn : n.toNat ≤ c.remaining.toNat) :
    Shares c c (.new n) := by
  have hw := hc.within
  rw [toNat_remaining hw] at hn
  have hb : n.toNat + c.used.toNat ≤ c.budget.toNat := by omega
  refine ⟨hc, conserved_new n, hb, rfl, fun g => ?_⟩
  cases g <;> rfl

namespace Shares

/-- The guest has never more left than its host. -/
theorem remaining_le (h : Shares c k q) : q.remaining.toNat ≤ k.remaining.toNat := by
  have hb := h.budget
  have hu := h.used
  rw [toNat_remaining h.host.within, toNat_remaining h.guest.within]
  omega

/-- Both can pay, and what they pay is the same. -/
theorem charge (h : Shares c k q) {g : Category} (hk : k.charge g n = .ok k')
    (hq : q.charge g n = .ok q') : Shares c k' q' := by
  obtain ⟨hk, hkb, hku, hkp⟩ := h.host.charge hk
  obtain ⟨hq, hqb, hqu, hqp⟩ := h.guest.charge hq
  have hb := h.budget
  have hu := h.used
  refine ⟨hk, hq, by rwa [hkb, hqb], by omega, fun g => ?_⟩
  have hp := h.profile g
  rw [hkp, hqp]
  omega

/-- Both pay for the same execution. -/
theorem absorb (h : Shares c k q) (hj : j.Conserved) (hn : j.used.toNat ≤ q.remaining.toNat) :
    Shares c (k.absorb j.used j.profile) (q.absorb j.used j.profile) := by
  obtain ⟨hk, hku, hkp⟩ := h.host.absorb hj (Nat.le_trans hn h.remaining_le)
  obtain ⟨hq, hqu, hqp⟩ := h.guest.absorb hj hn
  have hb := h.budget
  have hu := h.used
  refine ⟨hk, hq, hb, by omega, fun g => ?_⟩
  have hp := h.profile g
  rw [hkp, hqp]
  omega

end Shares

end Credits

/-! ### Hosts -/

/-- The frames of a guest. The outermost one is at the bottom of the stack, and it alone
    has no slot for its result. -/
inductive Rooted : List Frame → Prop
  | outermost {f} : f.base = 0 → 0 < f.size → f.resultAt = none → Rooted [f]
  | inner {f l} : f.resultAt.isSome → Rooted l → Rooted (f :: l)

namespace Machine

/-- The frame of a host for the frame `f` of its guest, above the frames of the caller `m`.
    The outermost frame of the guest returns to the caller, with the result for its slot
    `i`. -/
def hosted (m : Machine) (i : Nat) (f : Frame) : Frame where
  base := m.memory.stack.size + f.base
  size := f.size
  returnTo := if f.resultAt.isSome then f.returnTo else m.next
  resultAt := some (f.resultAt.elim i (m.memory.stack.size + ·))

/-- The machine `k` is the host of `n`, above the frames of the caller `m`, whose slot `i`
    is for the result. -/
structure Hosts (m : Machine) (i : Nat) (k n : Machine) : Prop where
  contract : k.contract = n.contract
  constantOnly : k.constantOnly = n.constantOnly
  registry : k.registry = n.registry
  program : k.program = n.program
  next : k.next = n.next
  depth : n.depth = k.depth + m.frames.length
  memory : k.memory = n.memory.above m.memory.stack
  frames : k.frames = n.frames.map (m.hosted i) ++ m.frames
  credits : m.credits.Shares k.credits n.credits
  rooted : Rooted n.frames
  capacity : n.memory.capacity = stackCapacity
  running : n.status = .running
  returns : n.returns

/-- The host `k` has returned to its caller `m`, whose slot `i` has got the result of the
    guest `n`. -/
structure Served (m : Machine) (i : Nat) (k n : Machine) : Prop where
  finished : n.status = .finished
  result : ∃ v, n.result = some v ∧ k.memory.stack = m.memory.stack.setIfInBounds i v
  frames : k.frames = m.frames
  next : k.next = m.next
  credits : m.credits.Shares k.credits n.credits

variable {m : Machine} {i : Nat} {k n : Machine}

/-- A host and its guest have an active frame. -/
theorem Hosts.active (h : m.Hosts i k n) : ∃ f l, n.frames = f :: l ∧
    k.frames = m.hosted i f :: (l.map (m.hosted i) ++ m.frames) := by
  have hk := h.frames
  have hn := h.rooted
  generalize n.frames = l at hk hn
  cases hn <;> exact ⟨_, _, rfl, hk⟩

end Machine

end CreditMachine
