import CreditMachine.Proofs.Stack

/-!
# Layers are not seen

A user of a stack of plain layers over a ledger sees the ledger. Two statements
make this precise, for ledgers reached by requests and all sequences of actions:

* `Stack.replies_new`: new layers give the answers that the ledger gives without
  them, whenever and wherever commits are made;
* `Stack.replies_commit`: a commit of the top overlay succeeds and leaves no
  changes in it, and from then on the layer below answers as the overlay would
  have answered, and still does.

Both assume of digests only that no two different values have the same one which
the ledger held at the start or which were stored or probed since.
-/

namespace CreditMachine.Stack

/-! ### A sample -/

/-- A slot is allocated and filled, another erased and written again, with commits
    of an upper and a lower layer in between. -/
def sampleActions : List Action :=
  [.request (.allocate ⟨7⟩ 2), .request (.write ⟨7⟩ (.entry 2 9) (.ofWord64 5)),
    .request (.erase ⟨7⟩ 1), .commit 2, .request (.write ⟨7⟩ (.root 1) (.ofWord64 5)), .commit 0,
    .request (.holders ⟨7⟩ (.ofWord64 5)), .lookup ⟨7⟩ (.map 0), .request (.read ⟨7⟩ (.root 2))]

/-! ### Answers -/

variable {ks : List Kind} {l : Ledger}

/-- New layers over a ledger answer as the ledger itself, without the commits. -/
theorem replies_new (hk : ∀ k ∈ ks, k.Plain) (hl : l.Reachable) (acts : List Action)
    (hd : (l.values ∪ valuesOf (replies [] (acts.filter fun a => !a.isCommit) (new [] l))).InjOn
      Value.digest) :
    replies ks acts (new ks l) = replies [] (acts.filter fun a => !a.isCommit) (new [] l) := by
  obtain ⟨h, hl⟩ := hl.shows
  have h₀ : Shows [] (new [] l) h := hl
  have hv := valuesOf_replies h₀ (acts.filter fun a => !a.isCommit)
  rw [hv, Register.replies_filter] at hd
  have hh : h.values ⊆ l.values ∪ valuesOf (h.replies acts) := by
    rw [← hl.values]
    exact Set.subset_union_left
  rw [replies_eq (shows_new hk hl) hd hh acts Set.subset_union_right,
    replies_eq h₀ hd hh _ (by rw [Register.replies_filter]; exact Set.subset_union_right),
    Register.replies_filter]

/-- Two overlays and a meter over the sample ledger. Their replies, in the midst of the commits at
    the three layers, are those of the ledger alone. -/
theorem replies_new_three_layers :
    replies [.overlay, .meter false, .overlay] sampleActions (new _ Ledger.sample) =
      replies [] (sampleActions.filter fun a => !a.isCommit) (new [] Ledger.sample) :=
  replies_new (by simp [Kind.Plain]) Ledger.reachable_sample sampleActions
    (Ledger.injOn_digest_sample (by decide +kernel))

/-- Some actions on a stack, and then on a new overlay over it, lead to an overlay
    that shows a register with values that are involved. -/
theorem run_overlay_shows {h : Register} {V : Set Value} {s : Stack ks} (hs : Shows ks s h)
    (hh : h.values ⊆ V) (before acts : List Action) (hb : valuesOf (replies ks before s) ⊆ V)
    (ha : valuesOf (replies (.overlay :: ks) acts (.empty, run ks before s)) ⊆ V) :
    ∃ g, Shows (.overlay :: ks) (run (.overlay :: ks) acts (.empty, run ks before s)) g ∧
      g.values ⊆ V := by
  rw [valuesOf_replies hs] at hb
  obtain ⟨f, hs, hf⟩ := run_shows hs hh before hb
  have hn : Shows (.overlay :: ks) (.empty, run ks before s) f := ⟨f, hs, Overlay.shows_empty f⟩
  rw [valuesOf_replies hn] at ha
  exact run_shows hn hf acts ha

/-- Committing the overlay on top makes the stack below it show its register. -/
theorem commit_top {x : Stack (.overlay :: ks)} {g : Register} (hg : Shows (.overlay :: ks) x g) :
    ∃ t, commit (.overlay :: ks) 0 x = (.ok x.1.pending, x.1.settled, t) ∧ Shows ks t g ∧
      Shows (.overlay :: ks) (x.1.settled, t) g := by
  obtain ⟨k, hs, ho⟩ := hg
  obtain ⟨t, he, ht, ho⟩ := Overlay.commit_shows (backend_shows ks) hs ho
  exact ⟨t, he, ht, g, ht, ho⟩

/-- The stack below the top overlay answers after a commit of it as the overlay does
    before, and so does the overlay. -/
theorem replies_commit_top {x : Stack (.overlay :: ks)} {g : Register} {V : Set Value}
    (hg : Shows (.overlay :: ks) x g) (hd : V.InjOn Value.digest) (hV : g.values ⊆ V)
    (later : List Action) (hv : valuesOf (replies (.overlay :: ks) later x) ⊆ V) :
    replies ks later (commit (.overlay :: ks) 0 x).2.2 = replies (.overlay :: ks) later x ∧
      replies (.overlay :: ks) later (commit (.overlay :: ks) 0 x).2 =
        replies (.overlay :: ks) later x := by
  obtain ⟨t, he, ht, ho⟩ := commit_top hg
  rw [valuesOf_replies hg] at hv
  rw [he, replies_eq hg hd hV later hv]
  exact ⟨replies_eq ht hd hV later hv, replies_eq ho hd hV later hv⟩

/-- After a commit of the overlay on top of a stack, the stack below it answers as
    the overlay did before, and so does the overlay, which has no changes left. -/
theorem replies_commit (hk : ∀ k ∈ ks, k.Plain) (hl : l.Reachable) (before acts : List Action) :
    let s := run ks before (new ks l)
    let x := run (.overlay :: ks) acts (.empty, s)
    let y := commit (.overlay :: ks) 0 x
    y.1 = .ok x.1.pending ∧ y.2.1.changeSet.isEmpty ∧ ∀ later : List Action,
      (l.values ∪ valuesOf (replies ks before (new ks l) ++
        replies (.overlay :: ks) acts (.empty, s) ++ replies (.overlay :: ks) later x)).InjOn
          Value.digest →
      replies ks later y.2.2 = replies (.overlay :: ks) later x ∧
        replies (.overlay :: ks) later y.2 = replies (.overlay :: ks) later x := by
  intro s x y
  obtain ⟨h, hl⟩ := hl.shows
  have h₀ := shows_new hk hl
  have hc : ∃ t, y = (.ok x.1.pending, x.1.settled, t) := by
    obtain ⟨g, hg, _⟩ := run_overlay_shows h₀ (Set.subset_univ _) before acts (Set.subset_univ _)
      (Set.subset_univ _)
    obtain ⟨t, he, _⟩ := commit_top hg
    exact ⟨t, he⟩
  obtain ⟨t, hy⟩ := hc
  refine ⟨by rw [hy], by rw [hy]; exact x.1.isEmpty_changeSet_settled, fun later hd => ?_⟩
  -- Values that are involved in any part of the run are told apart in all of it.
  rw [valuesOf_append, valuesOf_append] at hd
  have hh : h.values ⊆ l.values ∪ (valuesOf (replies ks before (new ks l)) ∪
      valuesOf (replies (.overlay :: ks) acts (.empty, s)) ∪
        valuesOf (replies (.overlay :: ks) later x)) := by
    rw [← hl.values]
    exact Set.subset_union_left
  obtain ⟨g, hg, hV⟩ := run_overlay_shows h₀ hh before acts
    (fun v hv => .inr (.inl (.inl hv))) fun v hv => .inr (.inl (.inr hv))
  exact replies_commit_top hg hd hV later fun v hv => .inr (.inr hv)

/-- A commit of the upper one of two overlays, with changes in both. The lower one and the two
    together reply as before; the hypotheses of the general theorem hold here. -/
theorem replies_commit_two_overlays :
    let s := run [.overlay] sampleActions (new [.overlay] Ledger.sample)
    let x := run [.overlay, .overlay] sampleActions (.empty, s)
    let y := commit [.overlay, .overlay] 0 x
    y.1 = .ok x.1.pending ∧ y.2.1.changeSet.isEmpty ∧
      replies [.overlay] sampleActions y.2.2 = replies [.overlay, .overlay] sampleActions x ∧
        replies [.overlay, .overlay] sampleActions y.2 =
          replies [.overlay, .overlay] sampleActions x := by
  obtain ⟨ha, he, hr⟩ := @replies_commit [.overlay] Ledger.sample (by simp [Kind.Plain])
    Ledger.reachable_sample sampleActions sampleActions
  exact ⟨ha, he, hr sampleActions (Ledger.injOn_digest_sample (by decide +kernel))⟩

end CreditMachine.Stack
