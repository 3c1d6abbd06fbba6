import CreditMachine.Codec
import CreditMachine.Machine.Abort

/-!
# Messages that are cut

The text of an abort may be as long as the name of a method, with characters of one to four bytes.
What a report tells of it is cut to a limit in bytes, between characters.

A cut is found by counting characters from the front (`Text.cut`). It may as well be found from the
limit, by going back byte by byte until a character begins there (`Text.lastBoundary`). This comes
to an end, since one begins at the first byte if not before, and both ways lead to the same place
(`Text.lastBoundary_eq`). The message of a report is hence the longest text that stands at the front
and fits (`Abort.message_report`).
-/

namespace CreditMachine

/-! ### Bytes of texts -/

theorem utf8_append (s t : String) : utf8 (s ++ t) = utf8 s ++ utf8 t := by
  rw [utf8, String.toByteArray_append, ByteArray.data_append, Array.toList_append, utf8, utf8]

/-- Where bytes begin with those of a text, the text begins with it. -/
theorem utf8_prefix_iff {s t : String} : utf8 t <+: utf8 s ↔ ∃ r, s = t ++ r := by
  constructor
  · rintro ⟨bs, h⟩
    have he : t.toList.utf8Encode ++ bs.toByteArray = s.toList.utf8Encode := by
      rw [String.utf8Encode_toList, String.utf8Encode_toList]
      refine ByteArray.ext (Array.toList_inj.1 ?_)
      rw [ByteArray.data_append, Array.toList_append, List.data_toByteArray]
      exact h
    obtain ⟨r, hr⟩ := List.isPrefix_of_utf8Encode_append_eq_utf8Encode _ he
    exact ⟨String.ofList r, String.toList_inj.1 (by simp [hr])⟩
  · rintro ⟨r, rfl⟩
    exact ⟨utf8 r, (utf8_append t r).symm⟩

namespace Text

variable {s t r : String} {n i : Nat}

theorem utf8ByteSize_ofList (cs : List Char) : (String.ofList cs).utf8ByteSize = size cs := by
  induction cs with
  | nil => rfl
  | cons c cs ih =>
    rw [← List.singleton_append, String.ofList_append, String.utf8ByteSize_append, ih]
    simp [size]

/-! ### Cuts -/

/-- No text that stands at the front and fits is longer. -/
theorem prefix_cutChars {l cs : List Char} (h : l <+: cs) (hl : size l ≤ n) :
    l <+: cutChars n cs := by
  induction cs generalizing n l with
  | nil => exact List.prefix_nil.1 h ▸ List.nil_prefix
  | cons c cs ih =>
    cases l with
    | nil => exact List.nil_prefix
    | cons d l =>
      obtain ⟨rfl, ht⟩ := List.cons_prefix_cons.1 h
      rw [size] at hl
      rw [cutChars, if_pos (by omega), List.cons_prefix_cons]
      exact ⟨rfl, ih ht (by omega)⟩

/-- What is cut off is a prefix. -/
theorem cut_append (n : Nat) (s : String) : ∃ r, s = cut n s ++ r := by
  obtain ⟨r, hr⟩ := cutChars_prefix n s.toList
  refine ⟨String.ofList r, String.toList_inj.1 ?_⟩
  simp [cut, hr]

/-- What is cut off is no longer than the limit. -/
theorem utf8ByteSize_cut_le (n : Nat) (s : String) : (cut n s).utf8ByteSize ≤ n := by
  rw [cut, utf8ByteSize_ofList]
  exact size_cutChars_le n s.toList

/-- Nothing is cut off from a text within the limit. -/
theorem cut_of_le (h : s.utf8ByteSize ≤ n) : cut n s = s := by
  rw [cut, cutChars_of_size_le, String.ofList_toList]
  rwa [← utf8ByteSize_ofList, String.ofList_toList]

/-- No longer prefix would be within the limit. -/
theorem cut_longest (h : s = t ++ r) (ht : t.utf8ByteSize ≤ n) : ∃ u, cut n s = t ++ u := by
  have hp : t.toList <+: s.toList := ⟨r.toList, by simp [h]⟩
  obtain ⟨u, hu⟩ := prefix_cutChars (n := n) hp
    (by rwa [← utf8ByteSize_ofList, String.ofList_toList])
  exact ⟨String.ofList u, String.toList_inj.1 (by simp [cut, hu])⟩

/-! ### Going back from the limit -/

/-- The last place at or before the byte `n` where a character begins, or the text ends. It is
    looked for backwards, and there is none if that goes beyond the first byte. -/
def lastBoundary (s : String) : Nat → Option Nat
  | 0 => if String.Pos.Raw.isValid s ⟨0⟩ then some 0 else none
  | n + 1 => if String.Pos.Raw.isValid s ⟨n + 1⟩ then some (n + 1) else lastBoundary s n

/-- Where the search stops. -/
theorem lastBoundary_eq_some (hi : i ≤ n) (hv : String.Pos.Raw.IsValid s ⟨i⟩)
    (hl : ∀ j, i < j → j ≤ n → ¬String.Pos.Raw.IsValid s ⟨j⟩) : lastBoundary s n = some i := by
  induction n with
  | zero =>
    obtain rfl := Nat.le_zero.1 hi
    rw [lastBoundary, if_pos (String.Pos.Raw.isValid_eq_true_iff.2 hv)]
  | succ n ih =>
    rcases Nat.lt_or_eq_of_le hi with h | rfl
    · have hn : String.Pos.Raw.isValid s ⟨n + 1⟩ = false :=
        String.Pos.Raw.isValid_eq_false_iff.2 (hl _ h (Nat.le_refl _))
      rw [lastBoundary, hn, if_neg Bool.false_ne_true]
      exact ih (Nat.le_of_lt_succ h) fun j hj hn => hl j hj (Nat.le_succ_of_le hn)
    · rw [lastBoundary, if_pos (String.Pos.Raw.isValid_eq_true_iff.2 hv)]

/-- The search stops, and where the cut is. -/
theorem lastBoundary_eq (s : String) (n : Nat) :
    lastBoundary s n = some (cut n s).utf8ByteSize := by
  refine lastBoundary_eq_some (utf8ByteSize_cut_le n s) ?_ fun j hj hn hv => ?_
  · obtain ⟨r, hr⟩ := cut_append n s
    exact String.Pos.Raw.isValid_iff_exists_append.2 ⟨_, r, hr, rfl⟩
  · -- The text before a later boundary would fit, too.
    obtain ⟨t, r, hs, ht⟩ := String.Pos.Raw.isValid_iff_exists_append.1 hv
    obtain rfl : j = t.utf8ByteSize := congrArg String.Pos.Raw.byteIdx ht
    obtain ⟨u, hu⟩ := cut_longest hs hn
    rw [hu, String.utf8ByteSize_append] at hj
    omega

/-- In bytes as well, what is cut off is a prefix. -/
theorem utf8_cut (n : Nat) (s : String) :
    utf8 (cut n s) = (utf8 s).take (cut n s).utf8ByteSize := by
  obtain ⟨r, hr⟩ := cut_append n s
  have hl := length_utf8 (cut n s)
  generalize cut n s = t at hr hl
  rw [hr, utf8_append, ← hl, List.take_left]

end Text

/-! ### Reports -/

namespace Abort

open Text

/-- The message of a report. It stands at the front of the text of the abort and is no longer than
    the limit, and no other text of which this is true is longer. What fits is not cut. If the text
    does not fit then a search from the limit backwards stops at a byte of the text, and what is
    before it is the message. -/
theorem message_report (e : Abort) (offset : Nat) (line : UInt32) (limit : Nat) :
    let s := e.message
    let t := (e.report offset line limit).message
    (utf8 t <+: utf8 s ∧ t.utf8ByteSize ≤ limit) ∧
      (∀ u, utf8 u <+: utf8 s → u.utf8ByteSize ≤ limit → utf8 u <+: utf8 t) ∧
      (s.utf8ByteSize ≤ limit → t = s) ∧
      (limit < s.utf8ByteSize →
        ∃ i ≤ limit, lastBoundary s limit = some i ∧ utf8 t = (utf8 s).take i) := by
  intro s t
  have hl : t.utf8ByteSize ≤ limit := utf8ByteSize_cut_le limit s
  refine ⟨⟨utf8_prefix_iff.2 (cut_append limit s), hl⟩, fun u hu hn => ?_, cut_of_le,
    fun _ => ⟨_, hl, lastBoundary_eq s limit, utf8_cut limit s⟩⟩
  obtain ⟨r, hr⟩ := utf8_prefix_iff.1 hu
  exact utf8_prefix_iff.2 (cut_longest hr hn)

/-- The limit is in the midst of a character of four bytes. -/
theorem message_report_name :
    let e : Abort := .undefinedMethod "é€😀"
    let t := (e.report 3 7 25).message
    (25 < e.message.utf8ByteSize ∧ utf8 "undefined method é€" <+: utf8 e.message) ∧
      t = "undefined method é€" ∧ utf8 "undefined method é€" <+: utf8 t ∧
      (∃ i ≤ 25, lastBoundary e.message 25 = some i ∧ utf8 t = (utf8 e.message).take i) ∧
      (e.report 3 7 26).message = e.message := by
  intro e t
  obtain ⟨-, hl, -, hb⟩ := e.message_report 3 7 25
  obtain ⟨-, -, hf, -⟩ := e.message_report 3 7 26
  have hs : 25 < e.message.utf8ByteSize := by decide
  have hu : utf8 "undefined method é€" <+: utf8 e.message := by decide
  exact ⟨⟨hs, hu⟩, by decide, hl _ hu (by decide), hb hs, hf (by decide)⟩

end Abort

end CreditMachine
