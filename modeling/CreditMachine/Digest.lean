import CreditMachine.Digest.Keccak
import CreditMachine.Word

/-!
# Digests

The digest SHA3-256 of data. The data is padded to whole blocks of 136 bytes,
each block is added to the first 17 lanes of the state, which is then permuted,
and the digest is the first four lanes of the last state.
-/

namespace CreditMachine.Digest

open Keccak

/-- The number of bytes that a block brings into the state. -/
def rate : Nat := 136

/-- The data `s` filled up to whole blocks. -/
def pad (s : Bytes) : Bytes :=
  match rate - 1 - s.length % rate with
  | 0 => s ++ [0x86]
  | n + 1 => s ++ 0x06 :: List.replicate n 0 ++ [0x80]

/-- The lane whose 8 bytes are at the front of `s`. -/
def lane (s : Bytes) : UInt64 :=
  (s.take 8).foldr (fun b x => x <<< 8 ||| b.toUInt64) 0

/-- The five lanes at the front of `s`. -/
def row (s : Bytes) : Row :=
  ⟨lane s, lane (s.drop 8), lane (s.drop 16), lane (s.drop 24), lane (s.drop 32)⟩

/-- The state `k` with the block `s` added and permuted. -/
def absorb (k : State) (s : Bytes) : State :=
  let t := s.drop 40
  let u := t.drop 40
  let v := u.drop 40
  permute { k with
    r := k.r.add (row s)
    s := k.s.add (row t)
    t := k.t.add (row u)
    u := k.u.add ⟨lane v, lane (v.drop 8), 0, 0, 0⟩ }

/-- The state `k` with the first `n` blocks of `s` absorbed. -/
def absorbBlocks : Nat → State → Bytes → State
  | 0, k, _ => k
  | n + 1, k, s => absorbBlocks n (absorb k (s.take rate)) (s.drop rate)

/-- The 32 bytes of the digest of the data `s`. -/
def sha3 (s : Bytes) : Bytes :=
  let p := pad s
  let r := (absorbBlocks (p.length / rate) .zero p).r
  [r.a, r.b, r.c, r.d].flatMap fun x => littleEndian 8 x.toNat

/-- The digest of the data `parts`, one after the other, marked as of the kind
    `domain`. -/
def tagged (domain : Bytes) (parts : List Bytes) : Word :=
  Word.ofBytes (sha3 (domain ++ parts.flatten))

end CreditMachine.Digest
