import CreditMachine.Value
import Mathlib.Algebra.Group.Nat.Defs

/-!
# Decoding what was encoded

A decoder *takes* data as a value if it takes exactly these bytes off the front of
any data that begins with them (`Decoder.Takes`). Decoders that are put together
of such take what their parts take, one after the other, so that every codec is
read off its encoder.

* `Value.decode_encode`: a value is decoded from its encoding, and from no more than
  that, but for one kind of values: a text of more than `maxLength` bytes. It is
  encoded like any other, and is then refused; a blob of the same length is not.
-/

namespace CreditMachine

/-- A number that fits into its bytes is the number of these bytes. -/
theorem ofLittleEndian_littleEndian {w n : Nat} (h : n < 256 ^ w) :
    ofLittleEndian (littleEndian w n) = n := by
  induction w generalizing n with
  | zero =>
    rw [Nat.pow_zero, Nat.lt_one_iff] at h
    rw [h]
    rfl
  | succ w ih =>
    rw [Nat.pow_succ] at h
    rw [littleEndian, ofLittleEndian, ih (Nat.div_lt_of_lt_mul (by omega)), UInt8.toNat_ofNat']
    omega

/-- The bytes of a text, as a list and as an array. -/
theorem toByteArray_utf8 (s : String) : (utf8 s).toByteArray = s.toByteArray :=
  ByteArray.ext (by rw [utf8, List.data_toByteArray, Array.toArray_toList])

/-- A text is the text of its bytes. -/
theorem ofUtf8?_utf8 (s : String) : ofUtf8? (utf8 s) = some s := by
  rw [ofUtf8?, toByteArray_utf8, String.fromUTF8?, dif_pos s.isValidUTF8]
  rfl

namespace Decoder

variable {α β : Type}

/-- The decoder `d` takes the bytes `bs` as `a`, and leaves all that comes after them. -/
def Takes (d : Decoder α) (bs : Bytes) (a : α) : Prop := ∀ r, d (bs ++ r) = .ok (a, r)

/-- The decoder `d` fails on all data that begins with the bytes `bs`. -/
def Refuses (d : Decoder α) (bs : Bytes) (e : DecodeError) : Prop := ∀ r, d (bs ++ r) = .error e

variable {d : Decoder α} {f : α → Decoder β} {a : α} {b : β} {bs bs' : Bytes} {e : DecodeError}

theorem bind_apply (d : Decoder α) (f : α → Decoder β) (s : Bytes) :
    (d >>= f) s = match d s with | .ok (a, r) => f a r | .error e => .error e := by
  change Except.bind (d s) _ = _
  cases d s <;> rfl

namespace Takes

theorem pure (a : α) : Takes (pure a) [] a := fun _ => rfl

theorem bind (hd : Takes d bs a) (hf : Takes (f a) bs' b) : Takes (d >>= f) (bs ++ bs') b := by
  intro r
  rw [List.append_assoc, bind_apply, hd]
  exact hf r

/-- What is made of a value that is taken. -/
theorem then_eq (hd : Takes d bs a) (hf : f a = Pure.pure b) : Takes (d >>= f) bs b := by
  have hp : Takes (f a) [] b := by
    rw [hf]
    exact .pure b
  have h := hd.bind hp
  rwa [List.append_nil] at h

theorem then_pure (g : α → β) (hd : Takes d bs a) :
    Takes (do let a ← d; return g a) bs (g a) :=
  hd.then_eq rfl

theorem map (g : α → β) (hd : Takes d bs a) : Takes (g <$> d) bs (g a) := by
  rw [map_eq_pure_bind]
  exact hd.then_pure g

theorem bytes (bs : Bytes) : Takes (bytes bs.length) bs bs := by
  intro r
  rw [Decoder.bytes]
  simp

theorem number {w n : Nat} (h : n < 256 ^ w) : Takes (number w) (littleEndian w n) n := by
  have hb := (bytes (littleEndian w n)).map ofLittleEndian
  rwa [length_littleEndian, ofLittleEndian_littleEndian h] at hb

theorem length {n : Nat} (h : n ≤ maxLength) : Takes length (littleEndian 8 n) n :=
  (number (Nat.lt_of_le_of_lt h (by decide))).then_eq (if_neg (Nat.not_lt.2 h))

/-- What is left of data that is taken as a value is nothing if there is no more. -/
theorem complete (hd : Takes d bs a) : d.complete bs = .ok a := by
  have h := hd []
  rw [List.append_nil] at h
  rw [Decoder.complete, h]
  rfl

end Takes

namespace Refuses

theorem bind (hd : Refuses d bs e) (f : α → Decoder β) : Refuses (d >>= f) bs e := by
  intro r
  rw [bind_apply, hd]

theorem append (hd : Refuses d bs e) (bs' : Bytes) : Refuses d (bs ++ bs') e := by
  intro r
  rw [List.append_assoc]
  exact hd _

/-- What is refused after the bytes that were taken. -/
theorem after (hf : Refuses (f a) bs' e) (hd : Takes d bs a) : Refuses (d >>= f) (bs ++ bs') e := by
  intro r
  rw [List.append_assoc, bind_apply, hd]
  exact hf r

theorem length {n : Nat} (h : maxLength < n) (hn : n < 256 ^ 8) :
    Refuses length (littleEndian 8 n) .lengthOverflow := by
  have hl : Refuses (do let k ← Decoder.number 8; if k > maxLength then throw .lengthOverflow else
      return k) (littleEndian 8 n ++ []) .lengthOverflow := by
    refine after (fun r => ?_) (Takes.number hn)
    rw [if_pos h]
    rfl
  rwa [List.append_nil] at hl

theorem complete (hd : Refuses d bs e) : d.complete bs = .error e := by
  have h := hd []
  rw [List.append_nil] at h
  rw [Decoder.complete, h]
  rfl

end Refuses

/-! ### Codecs -/

theorem encode_uint8 (n : UInt8) : encode n = [n] := by
  simp [encode, littleEndian]

theorem takes_uint8 (n : UInt8) : Takes decode (encode n) n := by
  have h := (Takes.number (show n.toNat < 256 ^ 1 from n.toNat_lt)).map UInt8.ofNat
  rwa [UInt8.ofNat_toNat] at h

theorem takes_uint64 (n : UInt64) : Takes decode (encode n) n := by
  have h := (Takes.number (show n.toNat < 256 ^ 8 from n.toNat_lt)).map UInt64.ofNat
  rwa [UInt64.ofNat_toNat] at h

theorem takes_bool (b : Bool) : Takes decode (encode b) b := by
  cases b with
  | false => exact (takes_uint8 0).bind (.pure false)
  | true => exact (takes_uint8 1).bind (.pure true)

/-- What may be missing is taken from its mark, and what is there from after it. -/
theorem takes_option [Codec α] (ha : ∀ a : α, Takes decode (encode a) a) (x : Option α) :
    Takes decode (encode x) x := by
  cases x with
  | none => exact (takes_bool false).bind (.pure none)
  | some a => exact (takes_bool true).bind ((ha a).map some)

theorem takes_cell (x : Cell) : Takes decode (encode x) x :=
  (takes_uint64 x.slot).bind ((takes_option takes_uint64 x.key).map (Cell.mk x.slot))

/-- A text is taken, up to the greatest length: its bytes are those of a text. -/
theorem takes_string {s : String} (hs : s.utf8ByteSize ≤ maxLength) :
    Takes decode (encode s) s := by
  refine (Takes.length hs).bind ?_
  have hb := Takes.bytes (utf8 s)
  rw [length_utf8] at hb
  exact hb.then_eq (by rw [ofUtf8?_utf8])

/-- The bytes of a text come after its length, which is refused. -/
theorem refuses_string {s : String} (hs : maxLength < s.utf8ByteSize)
    (h : s.utf8ByteSize < 256 ^ 8) :
    Refuses (decode : Decoder String) (encode s) .lengthOverflow :=
  ((Refuses.length hs h).append (utf8 s)).bind _

end Decoder

namespace Value

open Decoder

/-- Takes the rest of a value whose encoding begins with the byte `t`. -/
def payload (t : UInt8) : Decoder Value := do
  match t with
  | 0 => return .nil
  | 1 => return .int (BitVec.ofNat 256 (← Decoder.number 32))
  | 2 => return .str (← decode)
  | 3 => return .bytes (← Decoder.bytes (← Decoder.number 8))
  | 4 => return .array (← decode)
  | 5 => return .map (← decode)
  | 6 => return .ref (← decode)
  | _ => throw .invalidValue

/-- The first byte of an encoding tells what comes after it. -/
theorem decode_eq : (decode : Decoder Value) = (decode : Decoder UInt8) >>= payload := rfl

/-- Whether a value is a text that is not decoded. -/
def isOverlong : Value → Bool
  | .str s => maxLength < s.utf8ByteSize
  | _ => false

/-- A value is taken whose payload is. -/
theorem takes_cons {t : UInt8} {bs : Bytes} {v : Value} (h : Takes (payload t) bs v) :
    Takes decode (t :: bs) v := by
  rw [decode_eq]
  have ht := (takes_uint8 t).bind h
  rwa [encode_uint8, List.singleton_append] at ht

/-- A value is refused if its payload is. -/
theorem refuses_cons {t : UInt8} {bs : Bytes} {e : DecodeError} (h : Refuses (payload t) bs e) :
    Refuses (decode : Decoder Value) (t :: bs) e := by
  rw [decode_eq]
  have ht := h.after (takes_uint8 t)
  rwa [encode_uint8, List.singleton_append] at ht

/-- A value that is no text of too many bytes is decoded from its encoding. -/
theorem takes {v : Value} (hv : v.size ≤ ceiling) (h : v.isOverlong = false) :
    Takes decode (encode v) v := by
  cases v with
  | nil => exact takes_cons (.pure _)
  | int n =>
    have hn := (Takes.number (show n.toNat < 256 ^ 32 from n.isLt)).then_pure fun n =>
      Value.int (BitVec.ofNat 256 n)
    rw [BitVec.ofNat_toNat, BitVec.setWidth_eq] at hn
    exact takes_cons hn
  | str s =>
    rw [isOverlong, decide_eq_false_iff_not, Nat.not_lt] at h
    exact takes_cons ((takes_string h).then_pure Value.str)
  | bytes b =>
    rw [size, ceiling] at hv
    exact takes_cons ((Takes.number (by omega)).bind ((Takes.bytes b).then_pure Value.bytes))
  | array n => exact takes_cons ((takes_uint64 n).then_pure Value.array)
  | map n => exact takes_cons ((takes_uint64 n).then_pure Value.map)
  | ref x => exact takes_cons ((takes_cell x).then_pure Value.ref)

/-- A text of too many bytes is encoded, but not decoded. -/
theorem refuses {v : Value} (hv : v.size ≤ ceiling) (h : v.isOverlong) :
    Refuses (decode : Decoder Value) (encode v) .lengthOverflow := by
  cases v with
  | str s =>
    rw [size, ceiling] at hv
    rw [isOverlong, decide_eq_true_iff] at h
    exact refuses_cons ((refuses_string h (by omega)).bind _)
  | _ => cases h

/-- A value is decoded from its encoding, which has as many bytes as the value
    counts for, unless it is a text of too many bytes. -/
theorem decode_encode (v : Value) (hv : v.size ≤ ceiling) (r : Bytes) :
    (encode v).length = v.size ∧
      decode (encode v ++ r) =
        (if v.isOverlong then .error .lengthOverflow else .ok (v, r)) ∧
      Decoder.complete decode (encode v) =
        (if v.isOverlong then .error .lengthOverflow else .ok v) := by
  refine ⟨length_encode v, ?_⟩
  by_cases h : v.isOverlong
  · rw [if_pos h, if_pos h]
    exact ⟨refuses hv h r, (refuses hv h).complete⟩
  · rw [if_neg h, if_neg h]
    have ht := takes hv (by simpa using h)
    exact ⟨ht r, ht.complete⟩

/-- A reference is read back from its eighteen bytes, and what is behind it is left. -/
theorem decode_encode_ref :
    let v := Value.ref (.entry 1 5)
    v.size ≤ ceiling ∧ (encode v).length = 18 ∧ decode (encode v ++ [9]) = .ok (v, [9]) := by
  have hv : (Value.ref (.entry 1 5)).size ≤ ceiling := by decide
  obtain ⟨hl, hd, _⟩ := decode_encode (Value.ref (.entry 1 5)) hv [9]
  exact ⟨hv, hl, hd⟩

/-- A text of `n` letters. -/
def letters (n : Nat) : String := String.ofList (List.replicate n 'a')

/-- Each letter is one byte. -/
theorem utf8ByteSize_letters (n : Nat) : (letters n).utf8ByteSize = n := by
  induction n with
  | zero => rfl
  | succ n ih =>
    rw [letters, ← String.size_toByteArray, String.toByteArray_ofList] at ih ⊢
    rw [List.replicate_succ, List.utf8Encode_cons, ByteArray.size_append, ih, Nat.add_comm]
    rfl

/-- A text of one letter too many does not survive: it is not a value of its own
    encoding. -/
theorem not_decode_encode_letters :
    let v := Value.str (letters (maxLength + 1))
    v.size ≤ ceiling ∧ decode (encode v ++ []) ≠ .ok (v, []) ∧
      (decode : Decoder Value).complete (encode v) = .error .lengthOverflow := by
  have hv : (Value.str (letters (maxLength + 1))).size ≤ ceiling := by
    rw [size, utf8ByteSize_letters]
    decide
  have h : (Value.str (letters (maxLength + 1))).isOverlong := by
    rw [isOverlong, utf8ByteSize_letters]
    decide
  refine ⟨hv, ?_, (refuses hv h).complete⟩
  rw [refuses hv h]
  intro he
  cases he

end Value

end CreditMachine
