import CreditMachine.Codec
import CreditMachine.Digest
import CreditMachine.Text.Hex

/-!
# Addresses of contracts

A contract is named by 32 bytes. Addresses are ordered as their bytes are, that
is, as the numbers whose bytes they are.
-/

namespace CreditMachine

/-- The address of a contract. -/
structure Address where
  word : Word
deriving DecidableEq, Inhabited

namespace Address

/-- The 32 bytes of an address. -/
def bytes (a : Address) : Bytes :=
  a.word.bytes

/-- The address of 32 bytes. -/
def ofBytes? (bs : Bytes) : Option Address :=
  if bs.length = 32 then some ⟨Word.ofBytes bs⟩ else none

/-- The address that belongs to a seed, such as a name. -/
def derive (seed : Bytes) : Address :=
  ⟨Digest.tagged (utf8 "CONTRACT") [seed]⟩

/-- The text of an address: its first six bytes. -/
def text (a : Address) : String :=
  Hex.ofBytes (a.bytes.take 6) ++ ".."

instance : Ord Address := ⟨compareOn word⟩

instance : Std.TransOrd Address := inferInstanceAs (Std.TransCmp (compareOn word))

instance : Std.LawfulEqOrd Address where
  eq_of_compare {a b} h := by
    cases a
    cases b
    exact congrArg mk (Std.LawfulEqOrd.eq_of_compare h)

instance : Codec Address where
  encode := bytes
  decode := (fun bs => ⟨Word.ofBytes bs⟩) <$> Decoder.bytes 32

end Address

end CreditMachine
