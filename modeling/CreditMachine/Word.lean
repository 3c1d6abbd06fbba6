import CreditMachine.Codec.Endian

/-!
# Words

Digests, addresses and the numbers that a contract computes with have 256 bits.
Where a word stands for 32 bytes, these are the bytes of the number, the most
significant first, so that words are ordered as their bytes are.
-/

namespace CreditMachine

/-- 256 bits. -/
abbrev Word := BitVec 256

namespace Word

/-- The 32 bytes of a word. -/
def bytes (w : Word) : Bytes :=
  bigEndian 32 w.toNat

/-- The word of 32 bytes. -/
def ofBytes (bs : Bytes) : Word :=
  BitVec.ofNat 256 (ofBigEndian bs)

end Word

end CreditMachine
