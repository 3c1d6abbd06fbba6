import CreditMachine.Cell
import CreditMachine.Text.Quoted

/-!
# Values

What a cell or a slot of the stack holds. A container keeps only the number of
its entries: they are cells of their own, under the same slot.
-/

namespace CreditMachine

/-- A value. -/
inductive Value
  /-- Nothing, kept as such: not the same as an absent cell. -/
  | nil
  /-- An unsigned number of 256 bits. -/
  | int (n : Word)
  | str (s : String)
  | bytes (b : Bytes)
  /-- The root of an array, with the number of its elements. -/
  | array (n : UInt64)
  /-- The root of a map, with the number of its entries. -/
  | map (n : UInt64)
  /-- A reference to a cell of the same contract. -/
  | ref (x : Cell)
deriving DecidableEq, Inhabited

namespace Value

/-- The number `n` as a value. -/
def ofWord64 (n : UInt64) : Value := .int (BitVec.ofNat 256 n.toNat)

/-- The outcome of a test as a value. -/
def ofBool (b : Bool) : Value := ofWord64 (if b then 1 else 0)

/-- The name of the type of a value. -/
def type : Value → String
  | .nil => "Nil"
  | .int _ => "Int"
  | .str _ => "Str"
  | .bytes _ => "Bytes"
  | .array _ => "Array"
  | .map _ => "Map"
  | .ref _ => "Ref"

/-- Whether a value counts as true in a conditional jump. -/
def truthy : Value → Bool
  | .nil => false
  | .int n => n != 0
  | .str s => s != ""
  | .bytes b => !b.isEmpty
  | .array _ | .map _ | .ref _ => true

/-- Whether a value is the root of an array or a map. -/
def isContainer : Value → Bool
  | .array _ | .map _ => true
  | _ => false

/-- The text of a value. -/
def text : Value → String
  | .nil => "nil"
  | .int n => n.toNat.repr
  | .str s => Text.quote s
  | .bytes b => "0x" ++ Hex.ofBytes b
  | .array n => "array[" ++ Text.decimal n ++ "]"
  | .map n => "map[" ++ Text.decimal n ++ "]"
  | .ref x => "&" ++ x.text

instance : Codec Value where
  encode
    | .nil => [0]
    | .int n => 1 :: littleEndian 32 n.toNat
    | .str s => 2 :: encode s
    | .bytes b => 3 :: littleEndian 8 b.length ++ b
    | .array n => 4 :: encode n
    | .map n => 5 :: encode n
    | .ref x => 6 :: encode x
  decode := do
    match ← (decode : Decoder UInt8) with
    | 0 => return .nil
    | 1 => return .int (BitVec.ofNat 256 (← Decoder.number 32))
    | 2 => return .str (← decode)
    -- A blob, unlike a text, may have any length.
    | 3 => return .bytes (← Decoder.bytes (← Decoder.number 8))
    | 4 => return .array (← decode)
    | 5 => return .map (← decode)
    | 6 => return .ref (← decode)
    | _ => throw .invalidValue

/-- The number of bytes of the encoding of a value. -/
def size : Value → Nat
  | .nil => 1
  | .int _ => 33
  | .str s => 9 + s.utf8ByteSize
  | .bytes b => 9 + b.length
  | .array _ | .map _ => 9
  | .ref x => if x.isRoot then 10 else 18

/-- The digest of a value, by which equal values are found. -/
def digest (v : Value) : Word :=
  Digest.tagged (utf8 "VALUE") [encode v]

theorem length_encode (v : Value) : (encode v).length = v.size := by
  cases v with
  | str s => simp [encode, size]; omega
  | bytes b => simp [encode, size]; omega
  | ref x => rcases x with ⟨s, _ | k⟩ <;> simp [encode, size, Cell.isRoot]
  | _ => simp [encode, size]

end Value

end CreditMachine
