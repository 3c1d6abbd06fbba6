import CreditMachine.Proofs.Conservation

/-!
# Credits and the meter

The bytes of values that are read from storage and written to it are counted twice: as
credits, by the machines that execute, and as usage, by the meter that the requests go
through. The two agree. What is charged for a read is what the meter has counted for it,
and what is charged for a write is what it is about to count; a new map is charged nine
credits that the meter does not count (`Even`). An execution that aborts does so between
the two at worst: after a read that could not be paid for, or before a write that was not
made (`Uneven`). Nested executions are metered by the same meter, and their credits are
added up (`Call.execute_metered`).

Neither count is ever cut to the greatest word by an execution that succeeds, since what
can be charged can also be counted (`Room`).
-/

namespace CreditMachine

/-! ### Counting -/

theorem toNat_addSat_zero (n : UInt64) : (addSat n 0).toNat = n.toNat := by
  have hn := n.toNat_lt
  rw [toNat_addSat] <;> simp [ceiling]
  omega

/-- A request through a meter fails and is not counted, or is answered and counted. -/
theorem Meter.backend_cases {σ : Type} (b : Backend σ) (r : Request) (g : Meter) (s : σ) :
    (∃ e t, Meter.backend b r (g, s) = (.error e, g, t)) ∨
      ∃ a t, Meter.backend b r (g, s) =
        (.ok a, { g with usage := g.usage.merge (r.usage a) }, t) := by
  rw [Meter.backend]
  split
  · exact .inl ⟨_, _, rfl⟩
  generalize b r s = x
  obtain ⟨_ | a, t⟩ := x
  · exact .inl ⟨_, _, rfl⟩
  · exact .inr ⟨_, _, rfl⟩

namespace Credits

variable {k k' k₁ : Credits} {g g' g₁ : Meter} {i j : Nat}

/-- What is left can be spent on reads, or on writes, and the meter can count it. -/
structure Room (k : Credits) (g : Meter) : Prop where
  conserved : k.Conserved
  read : g.usage.bytesRead.toNat + k.remaining.toNat ≤ ceiling
  write : g.usage.bytesWritten.toNat + k.remaining.toNat ≤ ceiling

/-- As much was charged for storage as was counted, but for `j` new maps. -/
structure Even (j : Nat) (k : Credits) (g : Meter) (k' : Credits) (g' : Meter) : Prop where
  read : (k'.profile.get .storageRead).toNat + g.usage.bytesRead.toNat =
    (k.profile.get .storageRead).toNat + g'.usage.bytesRead.toNat
  write : (k'.profile.get .storageWrite).toNat + g.usage.bytesWritten.toNat =
    (k.profile.get .storageWrite).toNat + g'.usage.bytesWritten.toNat + 9 * j

/-- No more was charged for reads than was counted, and no less for writes. -/
structure Uneven (k : Credits) (g : Meter) (k' : Credits) (g' : Meter) : Prop where
  read : (k'.profile.get .storageRead).toNat + g.usage.bytesRead.toNat ≤
    (k.profile.get .storageRead).toNat + g'.usage.bytesRead.toNat
  write : (k.profile.get .storageWrite).toNat + g'.usage.bytesWritten.toNat ≤
    (k'.profile.get .storageWrite).toNat + g.usage.bytesWritten.toNat

theorem Even.refl (k : Credits) (g : Meter) : Even 0 k g k g := ⟨rfl, rfl⟩

theorem Even.trans (h : Even i k g k₁ g₁) (h' : Even j k₁ g₁ k' g') : Even (i + j) k g k' g' := by
  have := h.read
  have := h.write
  have := h'.read
  have := h'.write
  exact ⟨by omega, by omega⟩

theorem Even.uneven (h : Even j k g k' g') : Uneven k g k' g' := by
  have := h.read
  have := h.write
  exact ⟨by omega, by omega⟩

/-- What went well before does not mend what did not afterwards. -/
theorem Even.after (h : Even j k g k₁ g₁) (h' : Uneven k₁ g₁ k' g') : Uneven k g k' g' := by
  have := h.read
  have := h.write
  have := h'.read
  have := h'.write
  exact ⟨by omega, by omega⟩

/-- What was spent may have been counted. -/
theorem Room.spend (h : Room k g) (hk : k'.Conserved) (hb : k'.budget = k.budget)
    (hr : g'.usage.bytesRead.toNat + k.used.toNat ≤ g.usage.bytesRead.toNat + k'.used.toNat)
    (hw : g'.usage.bytesWritten.toNat + k.used.toNat ≤
      g.usage.bytesWritten.toNat + k'.used.toNat) : Room k' g' := by
  have := h.read
  have := h.write
  have hl := toNat_remaining h.conserved.within
  have hl' := toNat_remaining hk.within
  have hu := hk.within
  rw [hb] at hl' hu
  have := h.conserved.within
  exact ⟨hk, by omega, by omega⟩

/-- There is still room after a charge, if no more was counted than was paid. -/
theorem Room.charge (h : Room k g) {c : Category} {n : UInt64} (hc : k.charge c n = .ok k')
    (hr : g'.usage.bytesRead.toNat ≤ g.usage.bytesRead.toNat + n.toNat)
    (hw : g'.usage.bytesWritten.toNat ≤ g.usage.bytesWritten.toNat + n.toNat) : Room k' g' := by
  obtain ⟨hk, hb, hu, _⟩ := h.conserved.charge hc
  exact h.spend hk hb (by omega) (by omega)

/-- What can be charged can be counted. -/
theorem Room.toNat_addSat (h : Room k g) {c : Category} {n : UInt64} (hc : k.charge c n = .ok k') :
    (addSat g.usage.bytesRead n).toNat = g.usage.bytesRead.toNat + n.toNat ∧
      (addSat g.usage.bytesWritten n).toNat = g.usage.bytesWritten.toNat + n.toNat := by
  have := h.read
  have := h.write
  have hl := toNat_remaining h.conserved.within
  rcases charge_cases h.conserved.within c n with ⟨_, he⟩ | ⟨hn, _⟩
  · rw [he] at hc
    cases hc
  · exact ⟨CreditMachine.toNat_addSat (by omega), CreditMachine.toNat_addSat (by omega)⟩

variable {q : Credits}

/-- What a nested execution was charged is added up. -/
theorem Even.absorb (hk : k.Conserved) (hq : q.Conserved) (hu : q.used.toNat ≤ k.remaining.toNat)
    {n : UInt64} (h : Even j (.new n) g q g') : Even j k g (k.absorb q.used q.profile) g' := by
  obtain ⟨_, _, hp⟩ := hk.absorb hq hu
  obtain ⟨hr, hw⟩ := h
  refine ⟨?_, ?_⟩
  · rw [hp]
    change _ = 0 + _ at hr
    omega
  · rw [hp]
    change _ = 0 + _ + _ at hw
    omega

/-- The account of a nested call is taken into that of the caller. -/
theorem Uneven.absorb (hk : k.Conserved) (hq : q.Conserved)
    (hu : q.used.toNat ≤ k.remaining.toNat) {n : UInt64} (h : Uneven (.new n) g q g') :
    Uneven k g (k.absorb q.used q.profile) g' := by
  obtain ⟨_, _, hp⟩ := hk.absorb hq hu
  obtain ⟨hr, hw⟩ := h
  refine ⟨?_, ?_⟩
  · rw [hp]
    change _ ≤ 0 + _ at hr
    omega
  · rw [hp]
    change 0 + _ ≤ _ at hw
    omega

/-- A nested execution leaves the room that it was given, less what it has used. -/
theorem Room.absorb (hk : k.Conserved) (hq : Room q g) (hb : q.budget = k.remaining) :
    Room (k.absorb q.used q.profile) g := by
  have hu : q.used.toNat ≤ k.remaining.toNat := hb ▸ hq.conserved.within
  obtain ⟨hc, hs, _⟩ := hk.absorb hq.conserved hu
  have hl := toNat_remaining hc.within
  have hl' := toNat_remaining hq.conserved.within
  have hl'' := toNat_remaining hk.within
  have := hq.read
  have := hq.write
  rw [hb] at hl'
  change (k.absorb q.used q.profile).remaining.toNat = k.budget.toNat - _ at hl
  exact ⟨hc, by omega, by omega⟩

/-- A nested execution has the room of the one that calls for it. -/
theorem Room.new (h : Room k g) : Room (.new k.remaining) g := by
  have hl := toNat_remaining (k := .new k.remaining) (Nat.zero_le _)
  have := h.read
  have := h.write
  change _ = k.remaining.toNat - 0 at hl
  exact ⟨conserved_new _, by omega, by omega⟩

end Credits

/-! ### Executions -/

/-- Neither the program of a machine nor one that it can call makes new maps. -/
def Machine.MapFree (m : Machine) : Prop :=
  (∀ p, m.program = some p → ¬p.Has .newmap) ∧
    ∀ c p, m.registry c = some p → ¬p.Has .newmap

namespace Discipline

open Exec Credits

variable {σ : Type}

/-- What is charged for storage is what is counted. -/
def metering (σ : Type) : Discipline (Meter × σ) where
  Goes m s k t := (k.program = m.program ∧ k.registry = m.registry) ∧
    m.credits.Conserves k.credits ∧ (Room m.credits s.1 → Room k.credits t.1 ∧
      ∃ j, Even j m.credits s.1 k.credits t.1 ∧ (m.MapFree → j = 0))
  Stops m s k t := m.credits.Conserves k.credits ∧
    (Room m.credits s.1 → Uneven m.credits s.1 k.credits t.1)
  refl m s := ⟨⟨rfl, rfl⟩, .refl m.credits, fun h => ⟨h, 0, .refl _ _, fun _ => rfl⟩⟩
  trans := by
    rintro m s k t m' s' ⟨⟨hp, hr⟩, hc, h⟩ ⟨⟨hp', hr'⟩, hc', h'⟩
    refine ⟨⟨hp'.trans hp, hr'.trans hr⟩, hc.trans hc', fun hm => ?_⟩
    obtain ⟨hk, i, hi, hf⟩ := h hm
    obtain ⟨hm', j, hj, hf'⟩ := h' hk
    refine ⟨hm', i + j, hi.trans hj, fun hn => ?_⟩
    have hn' : k.MapFree := by rwa [Machine.MapFree, hp, hr]
    rw [hf hn, hf' hn']
  stops := by
    rintro m s k t ⟨_, hc, h⟩
    refine ⟨hc, fun hm => ?_⟩
    obtain ⟨_, j, hj, _⟩ := h hm
    exact hj.uneven
  after := by
    rintro m s k t m' s' ⟨_, hc, h⟩ ⟨hc', h'⟩
    refine ⟨hc.trans hc', fun hm => ?_⟩
    obtain ⟨hk, j, hj, _⟩ := h hm
    exact hj.after (h' hk)

variable {m : Machine} {k : Credits} {g g' : Meter} {s t : σ}

/-- An execution that has paid for what was counted goes on. -/
theorem goes_metering (hc : m.credits.Conserves k)
    (h : Room m.credits g → Room k g' ∧ Even 0 m.credits g k g') :
    (metering σ).Goes m (g, s) { m with credits := k } (g', t) :=
  ⟨⟨rfl, rfl⟩, hc, fun hm => ⟨(h hm).1, 0, (h hm).2, fun _ => rfl⟩⟩

/-- A charge that is not for storage. -/
theorem metering_charge {c : Category} (hr : c ≠ .storageRead) (hw : c ≠ .storageWrite)
    (n : UInt64) : (metering σ).Kept (charge c n) := by
  rintro m ⟨g, s⟩
  rw [charge_apply]
  split
  · next k hc =>
    refine .ok (goes_metering (conserves_charge hc) fun hm => ?_)
    obtain ⟨_, _, _, hp⟩ := hm.conserved.charge hc
    refine ⟨hm.charge hc (by omega) (by omega), ?_, ?_⟩
    · rw [hp, if_neg hr.symm]
      omega
    · rw [hp, if_neg hw.symm]
      omega
  · exact .error ((metering σ).stops ((metering σ).refl m (g, s)))

variable (b : Backend σ)

/-- What is counted has no bytes. -/
theorem goes_uncounted {r : Request} {a : r.Answer} (hr : (r.usage a).bytesRead = 0)
    (hw : (r.usage a).bytesWritten = 0) :
    (metering σ).Goes m (g, s) m ({ g with usage := g.usage.merge (r.usage a) }, t) := by
  have hr : (g.usage.merge (r.usage a)).bytesRead.toNat = g.usage.bytesRead.toNat := by
    rw [Usage.merge, hr, toNat_addSat_zero]
  have hw : (g.usage.merge (r.usage a)).bytesWritten.toNat = g.usage.bytesWritten.toNat := by
    rw [Usage.merge, hw, toNat_addSat_zero]
  refine goes_metering (.refl _) fun hm => ⟨?_, ?_, ?_⟩
  · exact hm.spend hm.conserved rfl (by rw [hr]) (by rw [hw])
  · rw [hr]
  · rw [hw]
    rfl

/-- A request that fails is not counted. -/
theorem stops_uncounted : (metering σ).Stops m (g, s) m (g, t) :=
  (metering σ).stops (goes_metering (.refl _) fun hm => ⟨hm, .refl _ _⟩)

/-- A request that costs nothing is made. -/
theorem metering_ask {r : Request} (hr : ∀ a, (r.usage a).bytesRead = 0)
    (hw : ∀ a, (r.usage a).bytesWritten = 0) : (metering σ).Kept (ask (Meter.backend b) r) := by
  rintro m ⟨g, s⟩
  rw [ask_apply]
  rcases Meter.backend_cases b r g s with ⟨e, t, h⟩ | ⟨a, t, h⟩ <;> rw [h]
  · exact .error stops_uncounted
  · exact .ok (goes_uncounted (hr a) (hw a))

/-- Bytes that were read are counted, and then charged. -/
theorem metering_read {α : Type} {r : Request} {n : UInt64} {a : r.Answer} {v : α}
    (hr : (r.usage a).bytesRead = n) (hw : (r.usage a).bytesWritten = 0) (m : Machine) (g : Meter)
    (s t : σ) : (metering σ).Ends m (g, s)
      ((do charge .storageRead n; pure v : Exec (Meter × σ) α) m
        ({ g with usage := g.usage.merge (r.usage a) }, t)) := by
  have hb : (g.usage.merge (r.usage a)).bytesRead = addSat g.usage.bytesRead n := by
    rw [Usage.merge, hr]
  have hw : (g.usage.merge (r.usage a)).bytesWritten.toNat = g.usage.bytesWritten.toNat := by
    rw [Usage.merge, hw, toNat_addSat_zero]
  rw [bind_apply, charge_apply]
  cases hc : m.credits.charge .storageRead n with
  | error e =>
    -- More has been counted than can be paid for.
    refine .error ⟨.refl _, fun hm => ⟨?_, by rw [hw]⟩⟩
    have := le_addSat g.usage.bytesRead n
    rw [hb]
    dsimp only
    omega
  | ok k =>
    refine .ok (goes_metering (conserves_charge hc) fun hm => ?_)
    obtain ⟨_, _, _, hp⟩ := hm.conserved.charge hc
    have hn := (hm.toNat_addSat hc).1
    refine ⟨hm.charge hc (by rw [hb]; omega) (by rw [hw]; omega), ?_, ?_⟩
    · rw [hp, if_pos rfl, hb]
      omega
    · rw [hp, if_neg (by decide), hw]
      rfl

theorem metering_load (x : Cell) : (metering σ).Kept (load (Meter.backend b) x) := by
  rintro m ⟨g, s⟩
  rw [load, get_apply, bind_apply, ask_apply]
  rcases Meter.backend_cases b (.read m.contract x) g s with ⟨e, t, h⟩ | ⟨v?, t, h⟩ <;> rw [h]
  · exact .error stops_uncounted
  · rcases v? with _ | v
    · exact .ok (goes_uncounted (r := .read m.contract x) (a := none) rfl rfl)
    · exact metering_read (r := .read m.contract x) (a := some v) rfl rfl m g s t

theorem metering_search (v : Value) : (metering σ).Kept (search (Meter.backend b) v) := by
  rintro m ⟨g, s⟩
  rw [search, get_apply, bind_apply, ask_apply]
  rcases Meter.backend_cases b (.holders m.contract v) g s with ⟨e, t, h⟩ | ⟨l, t, h⟩ <;> rw [h]
  · exact .error stops_uncounted
  · exact metering_read (r := .holders m.contract v) (a := l) rfl rfl m g s t

/-- Bytes that are to be written are charged, and then counted. -/
theorem metering_store (x : Cell) (v : Value) :
    (metering σ).Kept (store (Meter.backend b) x v) := by
  rintro m ⟨g, s⟩
  rw [store, bind_apply, chargeBytes, charge_apply]
  cases hc : m.credits.charge .storageWrite (clamp v.size) with
  | error e => exact .error stops_uncounted
  | ok k =>
    dsimp only
    rw [get_apply, ask_apply]
    rcases Meter.backend_cases b (.write m.contract x v) g s with ⟨e, t, h⟩ | ⟨a, t, h⟩ <;> rw [h]
    · -- The write was paid for, but not made.
      refine .error ⟨conserves_charge hc, fun hm => ?_⟩
      obtain ⟨_, _, _, hp⟩ := hm.conserved.charge hc
      refine ⟨?_, ?_⟩
      · rw [hp, if_neg (by decide)]
        rfl
      · rw [hp, if_pos rfl]
        dsimp only
        omega
    · refine .ok (goes_metering (conserves_charge hc) fun hm => ?_)
      obtain ⟨_, _, _, hp⟩ := hm.conserved.charge hc
      have hr := toNat_addSat_zero g.usage.bytesRead
      have hn := (hm.toNat_addSat hc).2
      refine ⟨hm.charge hc ?_ ?_, ?_, ?_⟩
      · exact hr ▸ Nat.le_add_right _ _
      · exact Nat.le_of_eq hn
      · rw [hp, if_neg (by decide)]
        exact congrArg (_ + ·) hr.symm
      · rw [hp, if_pos rfl]
        change _ = _ + (addSat g.usage.bytesWritten (clamp v.size)).toNat + _
        omega

/-- A new map is charged, but not counted. -/
theorem metering_newMap (m : Machine) (s : Meter × σ) (p : Program) (hm : m.program = some p)
    (hp : p.Has .newmap) (i : Slot) :
    (metering σ).Ends m s (newMap (Meter.backend b) .newmap i m s) := by
  have hn : (clamp (Value.map 0).size).toNat = 9 := by decide
  have hc : (metering σ).Ends m s (chargeBytes .storageWrite (.map 0) m s) := by
    obtain ⟨g, s⟩ := s
    rw [chargeBytes, charge_apply]
    cases hc : m.credits.charge .storageWrite (clamp (Value.map 0).size) with
    | error e => exact .error stops_uncounted
    | ok k =>
      refine .ok ⟨⟨rfl, rfl⟩, conserves_charge hc, fun hr => ?_⟩
      obtain ⟨_, _, _, hg⟩ := hr.conserved.charge hc
      refine ⟨hr.charge hc (Nat.le_add_right _ _) (Nat.le_add_right _ _), 1, ⟨?_, ?_⟩, ?_⟩
      · rw [hg, if_neg (by decide)]
        rfl
      · rw [hg, if_pos rfl, hn]
        dsimp only
        omega
      · exact fun hf => absurd hp (hf.1 p hm)
  have ha (r : Request) (hr : ∀ a, (r.usage a).bytesRead = 0)
      (hw : ∀ a, (r.usage a).bytesWritten = 0) := metering_ask (σ := σ) b hr hw
  refine hc.bind fun _ k t _ => Kept.get (fun k => ?_) k t
  refine .bind (ha (.allocate k.contract i) (fun _ => rfl) fun _ => rfl) fun _ => ?_
  refine .bind (metering_load b _) fun v? => ?_
  split
  · exact .pure _
  · exact .throw _
  · exact .throw _

/-- The credits of a nested execution are added up, and its requests are counted. -/
theorem metering_delegate {x : Exec (Meter × σ) Unit} (hx : (metering σ).Kept x) (m : Machine)
    (s : Meter × σ) (c : Address) (p : Program) (hp : m.registry c = some p) (n : UInt64)
    (args : List Value) : (metering σ).Ends m s (delegate x c p n args m s) := by
  obtain ⟨g, s⟩ := s
  -- An execution that is refused has used nothing.
  have he (i : UInt64) : (metering σ).Stops m (g, s)
      { m with credits := m.credits.absorb (Credits.new i).used (Credits.new i).profile }
      (g, s) := by
    have hu : (Credits.new i).used.toNat ≤ m.credits.remaining.toNat := Nat.zero_le _
    refine ⟨conserves_absorb fun _ => ⟨conserved_new i, hu⟩, fun hm => ?_⟩
    exact .absorb hm.conserved (conserved_new i) hu (n := i) ⟨Nat.le_refl _, Nat.le_refl _⟩
  have hr (m' : Machine) (hc : m'.credits = .new m.credits.remaining) (hq : m'.program = some p)
      (hr : m'.registry = m.registry) : (metering σ).Ends m (g, s) (match x m' (g, s) with
        | ((r, k), u) => ((r.map fun _ => k.result.getD .nil,
          { m with credits := m.credits.absorb k.credits.used k.credits.profile }), u)) := by
    have hk := hx m' (g, s)
    have hn := conserved_new m.credits.remaining
    generalize x m' (g, s) = a at hk ⊢
    have hg : m'.credits.Conserves a.1.2.credits := hk.stopped.1
    rw [hc] at hg
    have hq' := (hg.keeps hn).1
    have hb : a.1.2.credits.budget = m.credits.remaining := hg.budget
    have hu : a.1.2.credits.used.toNat ≤ m.credits.remaining.toNat := hb ▸ hq'.within
    have hv : m.credits.Conserves (m.credits.absorb a.1.2.credits.used a.1.2.credits.profile) :=
      conserves_absorb fun _ => ⟨hq', hu⟩
    cases hk with
    | ok h =>
      obtain ⟨_, _, h⟩ := h
      rw [hc] at h
      refine .ok ⟨⟨rfl, rfl⟩, hv, fun hm => ?_⟩
      obtain ⟨hr', j, hj, hf⟩ := h hm.new
      refine ⟨hr'.absorb hm.conserved hb, j, hj.absorb hm.conserved hq' hu, fun hf' => hf ?_⟩
      rw [Machine.MapFree, hq, hr]
      refine ⟨?_, hf'.2⟩
      rintro _ ⟨⟩
      exact hf'.2 c p hp
    | error h =>
      obtain ⟨_, h⟩ := h
      rw [hc] at h
      exact .error ⟨hv, fun hm => (h hm.new).absorb hm.conserved hq' hu⟩
  rw [delegate_apply, begin_apply]
  rcases Machine.begin_cases (m := callee m c p) rfl (.index n) args m.credits.remaining with
    ⟨a, ha, _⟩ | ⟨i, j, ha⟩ | ⟨q, t, k, k', hq, _, _, _, _, ha⟩ <;> rw [ha]
  · exact .error (he 0)
  · exact .error (he m.credits.remaining)
  · exact hr _ rfl rfl rfl

/-- Every part of an instruction keeps the accounts. -/
theorem metering_rules (b : Backend σ) : (metering σ).Rules (Meter.backend b) :=
  Calm.rules
    { calm := fun m s _ _ _ _ _ _ =>
        ⟨⟨rfl, rfl⟩, .refl m.credits, fun h => ⟨h, 0, .refl _ _, fun _ => rfl⟩⟩
      fixed := fun h => h.1
      marked := id
      opcode := metering_charge (by decide) (by decide)
      callOverhead := metering_charge (by decide) (by decide)
      requests :=
        { guard := kept_guard
          load := metering_load b
          search := metering_search b
          store := metering_store b
          unstore := fun _ _ => .get fun _ => metering_ask b (fun _ => rfl) fun _ => rfl
          erase := fun _ => .get fun _ => metering_ask b (fun _ => rfl) fun _ => rfl }
      newMap := metering_newMap b
      delegate := metering_delegate }

end Discipline

/-! ### Calls -/

namespace Call

open Credits Discipline

variable {σ : Type} (b : Backend σ) (p : Program) (registry : Registry) (q : Call)

/-- What an attempt was charged for storage is what its meter has counted. -/
theorem attempt_metered (s : σ) :
    let a := (q.attempt b p registry s).1
    Uneven (.new q.credits) (.new q.readOnly) a.machine.credits a.meter ∧
      (a.ending = .ok () → ∃ j,
        Even j (.new q.credits) (.new q.readOnly) a.machine.credits a.meter ∧
          ((q.machine p registry).MapFree → j = 0)) := by
  have ha : q.attempt b p registry s =
      let x := (q.machine p registry).call (Meter.backend (Overlay.backend b)) q.entry q.args
        q.credits (.new q.readOnly, .empty, s)
      (⟨x.1.1, x.1.2, x.2.1, x.2.2.1⟩, x.2.2.2) := rfl
  have hr : Room (.new q.credits) (.new q.readOnly) := by
    have hn := q.credits.toNat_lt
    have hl := toNat_remaining (k := .new q.credits) (Nat.zero_le _)
    have hc : q.credits.toNat ≤ ceiling := Nat.le_of_lt_succ hn
    have hs : 0 + (Credits.new q.credits).remaining.toNat ≤ ceiling := by
      rw [hl, Nat.zero_add]
      exact hc
    exact ⟨conserved_new _, hs, hs⟩
  -- The execution that was begun, if it was.
  have hx (m : Machine) (hc : m.credits = .new q.credits)
      (hm : m.program = some p ∧ m.registry = registry) :
      let x := Exec.run (Meter.backend (Overlay.backend b)) m (.new q.readOnly, .empty, s)
      Uneven (.new q.credits) (.new q.readOnly) x.1.2.credits x.2.1 ∧
        (x.1.1 = .ok () → ∃ j, Even j (.new q.credits) (.new q.readOnly) x.1.2.credits x.2.1 ∧
          ((q.machine p registry).MapFree → j = 0)) := by
    have hk := (metering_rules (Overlay.backend b)).run m (.new q.readOnly, .empty, s)
    generalize Exec.run (Meter.backend (Overlay.backend b)) m (.new q.readOnly, .empty, s) = x at hk
    rw [← hc] at hr ⊢
    cases hk with
    | ok h =>
      obtain ⟨_, _, h⟩ := h
      obtain ⟨_, j, hj, hf⟩ := h hr
      refine ⟨hj.uneven, fun _ => ⟨j, hj, fun hn => hf ?_⟩⟩
      rw [Machine.MapFree, hm.1, hm.2]
      exact hn
    | error h => exact ⟨h.2 hr, fun h => nomatch h⟩
  rw [ha, Machine.call_eq, Exec.begin_apply]
  rcases Machine.begin_cases (m := q.machine p registry) rfl q.entry q.args q.credits with
    ⟨a, he, _⟩ | ⟨i, j, he⟩ | ⟨_, t, k, k', _, _, _, _, _, he⟩ <;> rw [he]
  · exact ⟨⟨Nat.le_refl _, Nat.le_refl _⟩, fun h => nomatch h⟩
  · exact ⟨(Even.refl _ _).uneven, fun h => nomatch h⟩
  · exact hx _ rfl ⟨rfl, rfl⟩

/-- The credits and the usage of an outcome agree about storage: no more credits are charged
    for reads than bytes are read, and no less for writes than bytes are written. If the
    call succeeds, as many are charged for reads, and for writes nine more for each new map
    that was made, by the program of the call or another one that was called. -/
theorem execute_metered {c : Settings} {s : σ} {o : Outcome}
    (ho : (q.execute b p registry c s).1 = .ok o) :
    o.profile.get .storageRead ≤ o.usage.bytesRead ∧
      o.usage.bytesWritten ≤ o.profile.get .storageWrite ∧
      (o.isSuccess → o.profile.get .storageRead = o.usage.bytesRead ∧
        ∃ j, (o.profile.get .storageWrite).toNat = o.usage.bytesWritten.toNat + 9 * j ∧
          (¬p.Has .newmap → (∀ a p', registry a = some p' → ¬p'.Has .newmap) → j = 0)) := by
  obtain ⟨hu, hs⟩ := attempt_metered b p registry q s
  obtain rfl := outcome_of_execute_ok ho
  generalize (q.attempt b p registry s).1 = a at hu hs
  -- Neither the credits nor the meter have counted anything before the call.
  have hr : (a.machine.credits.profile.get .storageRead).toNat + 0 ≤
    0 + a.meter.usage.bytesRead.toNat := hu.read
  have hw : 0 + a.meter.usage.bytesWritten.toNat ≤
    (a.machine.credits.profile.get .storageWrite).toNat + 0 := hu.write
  rw [UInt64.le_iff_toNat_le, UInt64.le_iff_toNat_le]
  refine ⟨by rwa [Nat.zero_add] at hr, by rwa [Nat.zero_add] at hw, fun hi => ?_⟩
  have hok : a.ending = .ok () := by
    rw [Attempt.outcome, Outcome.isSuccess] at hi
    cases ha : a.ending with
    | ok => rfl
    | error e =>
      rw [ha] at hi
      cases hi
  -- A call that succeeds has come to its end, so its account is even.
  obtain ⟨j, ⟨hr, hw⟩, hf⟩ := hs hok
  change _ + 0 = 0 + _ at hr
  change _ + 0 = 0 + _ + _ at hw
  rw [Nat.add_zero, Nat.zero_add] at hr hw
  refine ⟨UInt64.toNat_inj.1 hr, j, hw, fun hp hn => hf ⟨?_, hn⟩⟩
  rintro _ ⟨⟩
  exact hp

/-- A call that calls itself, and makes no new map. -/
theorem execute_metered_relay :
    let q : Call := ⟨⟨7⟩, .method "main", [], 2000, false, false⟩
    let x := q.execute Ledger.backend Machine.relay
      (fun c => if c = ⟨7⟩ then some Machine.relay else none) .usual .sample
    ∃ o, x.1 = .ok o ∧ o.isSuccess ∧ o.usage.bytesRead = 132 ∧
      o.profile.get .storageRead = o.usage.bytesRead ∧
      (o.profile.get .storageWrite).toNat = o.usage.bytesWritten.toNat := by
  intro q x
  have hx : (x.1.map fun o => (o.isSuccess, o.usage.bytesRead)) = .ok (true, 132) := by
    decide +kernel
  cases ho : x.1 with
  | error e =>
    rw [ho] at hx
    cases hx
  | ok o =>
    rw [ho] at hx
    obtain ⟨hs, hr⟩ := Prod.mk.inj (Except.ok.inj hx)
    obtain ⟨_, _, he⟩ := execute_metered _ _ _ _ ho
    obtain ⟨hr', j, hw, hj⟩ := he hs
    have hn : ¬Machine.relay.Has .newmap := by decide +kernel
    have hj : j = 0 := by
      refine hj hn fun a p hp => ?_
      split at hp <;> cases hp
      exact hn
    exact ⟨o, rfl, hs, hr, hr', by rw [hw, hj, Nat.mul_zero, Nat.add_zero]⟩

end Call

end CreditMachine
