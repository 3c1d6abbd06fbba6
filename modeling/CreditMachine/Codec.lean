import CreditMachine.Codec.Endian

/-!
# Canonical encoding

Everything that is stored, hashed or shipped has one encoding as bytes:

* an integer of fixed width is little-endian, and a flag is one byte, 0 or 1;
* a sequence, and the UTF-8 bytes of a text, follow their length, a 64-bit word;
* an optional value follows a flag that says whether there is one.

A decoder takes its value off the front of the data and leaves the rest. It
takes no other data for a value than the encoder writes, and no sequence longer
than `maxLength`.
-/

namespace CreditMachine

/-- Why data is not an encoding. -/
inductive DecodeError
  | endOfInput
  | invalidValue
  | lengthOverflow
deriving DecidableEq, Repr

def DecodeError.message : DecodeError → String
  | .endOfInput => "unexpected end of input"
  | .invalidValue => "invalid value"
  | .lengthOverflow => "length prefix overflow"

/-- Takes a value off the front of the data. -/
abbrev Decoder := StateT Bytes (Except DecodeError)

/-- A type with a canonical encoding. -/
class Codec (α : Type) where
  encode : α → Bytes
  decode : Decoder α

export Codec (encode decode)

namespace Decoder

variable {α : Type}

/-- Takes `n` bytes. -/
def bytes (n : Nat) : Decoder Bytes := fun s =>
  let bs := s.take n
  if bs.length = n then .ok (bs, s.drop n) else .error .endOfInput

/-- Takes a number of `w` bytes, the least significant first. -/
def number (w : Nat) : Decoder Nat :=
  ofLittleEndian <$> bytes w

/-- Takes `n` values in turn. -/
def times (n : Nat) (d : Decoder α) : Decoder (List α) :=
  (List.replicate n ()).mapM fun _ => d

/-- Takes a value that must span all of the data `s`. -/
def complete (d : Decoder α) (s : Bytes) : Except DecodeError α := do
  let (a, r) ← d s
  if r.isEmpty then return a else throw .invalidValue

end Decoder

/-- The greatest length of a sequence that is decoded. -/
def maxLength : Nat := 0x100000

/-- Takes the length of a sequence. -/
def Decoder.length : Decoder Nat := do
  let n ← number 8
  if n > maxLength then throw .lengthOverflow else return n

instance : Codec UInt8 where
  encode n := littleEndian 1 n.toNat
  decode := UInt8.ofNat <$> Decoder.number 1

instance : Codec UInt32 where
  encode n := littleEndian 4 n.toNat
  decode := UInt32.ofNat <$> Decoder.number 4

instance : Codec UInt64 where
  encode n := littleEndian 8 n.toNat
  decode := UInt64.ofNat <$> Decoder.number 8

instance : Codec Bool where
  encode b := [if b then 1 else 0]
  decode := do
    match ← (decode : Decoder UInt8) with
    | 0 => return false
    | 1 => return true
    | _ => throw .invalidValue

instance {α : Type} [Codec α] : Codec (Option α) where
  encode
    | none => encode false
    | some a => encode true ++ encode a
  decode := do
    match ← (decode : Decoder Bool) with
    | true => return some (← decode)
    | false => return none

instance {α : Type} [Codec α] : Codec (List α) where
  encode l := littleEndian 8 l.length ++ l.flatMap encode
  decode := do Decoder.times (← Decoder.length) decode

instance {α : Type} [Codec α] : Codec (Array α) where
  encode l := encode l.toList
  decode := List.toArray <$> decode

/-- The UTF-8 bytes of the text `s`. -/
def utf8 (s : String) : Bytes :=
  s.toByteArray.data.toList

@[simp] theorem length_utf8 (s : String) : (utf8 s).length = s.utf8ByteSize := by
  rw [utf8, Array.length_toList, ByteArray.size_data, String.size_toByteArray]

/-- The text whose UTF-8 bytes are `bs`. -/
def ofUtf8? (bs : Bytes) : Option String :=
  String.fromUTF8? bs.toByteArray

instance : Codec String where
  encode s := littleEndian 8 s.utf8ByteSize ++ utf8 s
  decode := do
    let bs ← Decoder.bytes (← Decoder.length)
    match ofUtf8? bs with
    | some s => return s
    | none => throw .invalidValue

end CreditMachine
