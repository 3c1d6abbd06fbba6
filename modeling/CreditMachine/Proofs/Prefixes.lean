import CreditMachine.Proofs.Decoding

/-!
# Where an encoding ends

The encoding of a value tells by itself where it ends: data that begins with it begins with no
other encoding (`Value.encode_append_inj`). So different values have different encodings, and
their digests are digests of different data.

For values that are decoded this is so because a decoder takes them. But a text of more than
`maxLength` bytes is not decoded, and yet may hold anything. It is encoded with its length like
any other, and without that limit it could be read (`Value.reader`).
-/

namespace CreditMachine

namespace Decoder

variable {α : Type} {d : Decoder α}

/-- Data begins with one value that the decoder takes, and with no other. -/
theorem Takes.append_inj {a b : α} {bs bs' r s : Bytes} (ha : Takes d bs a) (hb : Takes d bs' b)
    (h : bs ++ r = bs' ++ s) : a = b ∧ r = s := by
  have he : (Except.ok (a, r) : Except DecodeError _) = .ok (b, s) := by
    rw [← ha r, h, hb s]
  cases he
  exact ⟨rfl, rfl⟩

/-- Takes a text of any length. -/
def anyText : Decoder String := do
  let bs ← bytes (← number 8)
  match ofUtf8? bs with
  | some s => return s
  | none => throw .invalidValue

/-- A text is read back by the reader without a limit, as long as its length can be written. -/
theorem takes_anyText {s : String} (hs : s.utf8ByteSize < 256 ^ 8) :
    Takes anyText (encode s) s := by
  refine (Takes.number hs).bind ?_
  have hb := Takes.bytes (utf8 s)
  rw [length_utf8] at hb
  exact hb.then_eq (by rw [ofUtf8?_utf8])

end Decoder

namespace Value

open Decoder

/-- Takes the rest of a value as `payload` does, but with texts of any length. -/
def anyPayload (t : UInt8) : Decoder Value :=
  if t = 2 then Value.str <$> anyText else payload t

/-- Takes a value as the decoder does, but with texts of any length. -/
def reader : Decoder Value := (decode : Decoder UInt8) >>= anyPayload

/-- A value that the decoder takes is taken, unless its encoding has the mark of a text. -/
theorem reader_takes_of {v : Value} {t : UInt8} {bs : Bytes} (h : Takes decode (encode v) v)
    (he : encode v = t :: bs) (ht : t ≠ 2) : Takes reader (encode v) v := by
  rw [he] at h ⊢
  intro r
  have hr := h r
  have hn := takes_uint8 t (bs ++ r)
  rw [encode_uint8, List.singleton_append] at hn
  rw [List.cons_append, decode_eq, bind_apply, hn] at hr
  rw [List.cons_append, reader, bind_apply, hn]
  dsimp only at hr ⊢
  rw [anyPayload, if_neg ht, hr]

/-- Every value is read back by the reader without limits, overlong texts included. -/
theorem reader_takes {v : Value} (hv : v.size ≤ ceiling) : Takes reader (encode v) v := by
  cases v with
  | str s =>
    rw [size, ceiling] at hv
    have hs : Takes (anyPayload 2) (encode s) (.str s) :=
      (takes_anyText (by omega)).map Value.str
    have ht := (takes_uint8 2).bind hs
    rwa [encode_uint8, List.singleton_append] at ht
  | bytes b =>
    have he : encode (Value.bytes b) = 3 :: (littleEndian 8 b.length ++ b) := rfl
    exact reader_takes_of (takes hv rfl) he (by decide)
  | nil | int | array | map | ref => exact reader_takes_of (takes hv rfl) rfl (by decide)

/-- The data that the digest of a value is taken of. -/
def preimage (v : Value) : Bytes := utf8 "VALUE" ++ encode v

/-- The digest of a value is the hash of its preimage. -/
theorem digest_eq (v : Value) : v.digest = Word.ofBytes (Digest.sha3 v.preimage) := by
  rw [digest, Digest.tagged, preimage, List.flatten_singleton]

/-- If data begins with the encodings of two values, then these are the same value, and the rest of
    the data is the same. So different values have digests of different data. Texts and blobs may
    have any length that a word can tell, since it is encoded as one. -/
theorem encode_append_inj {v w : Value} (hv : v.size ≤ ceiling) (hw : w.size ≤ ceiling)
    (r s : Bytes) :
    (encode v ++ r = encode w ++ s ↔ v = w ∧ r = s) ∧
      (v.preimage = w.preimage ↔ v = w) ∧
      v.digest = Word.ofBytes (Digest.sha3 v.preimage) := by
  have hi {r s : Bytes} (h : encode v ++ r = encode w ++ s) : v = w ∧ r = s :=
    (reader_takes hv).append_inj (reader_takes hw) h
  refine ⟨⟨hi, ?_⟩, ⟨fun h => ?_, congrArg preimage⟩, digest_eq v⟩
  · rintro ⟨rfl, rfl⟩
    rfl
  · have he : encode v = encode w := List.append_cancel_left h
    exact (hi (congrArg (· ++ []) he)).1

/-- A text and a blob with the same bytes, too many for a text to be decoded. -/
theorem encode_append_inj_letters :
    let v := Value.str (letters (maxLength + 1))
    let w := Value.bytes (utf8 (letters (maxLength + 1)))
    (v.size ≤ ceiling ∧ w.size ≤ ceiling) ∧ (∀ r s, encode v ++ r ≠ encode w ++ s) ∧
      v.preimage ≠ w.preimage := by
  have hv : (Value.str (letters (maxLength + 1))).size ≤ ceiling := by
    rw [size, utf8ByteSize_letters]
    decide
  have hw : (Value.bytes (utf8 (letters (maxLength + 1)))).size ≤ ceiling := by
    rw [size, length_utf8, utf8ByteSize_letters]
    decide
  refine ⟨⟨hv, hw⟩, fun r s h => ?_, fun h => ?_⟩
  · cases ((encode_append_inj hv hw r s).1.1 h).1
  · cases (encode_append_inj hv hw [] []).2.1.1 h

end Value

end CreditMachine
