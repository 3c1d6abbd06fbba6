import CreditMachine.Codec.Endian

/-!
# The permutation Keccak-f[1600]

The state is 25 lanes of 64 bits, five *rows* of five: lane `x` of row `y` is
`A[x, y]`. A round

* adds to every lane the parities of two columns near it (`theta`),
* rotates the lanes and moves them to other rows (`rotate`),
* combines every lane with the next two of its row (`Row.chi`), and
* adds a constant to the first lane.

The permutation is 24 rounds.
-/

namespace CreditMachine.Keccak

/-- Five lanes. -/
structure Row where
  a : UInt64
  b : UInt64
  c : UInt64
  d : UInt64
  e : UInt64
deriving DecidableEq, Inhabited

/-- The lanes of a state, by rows. -/
structure State where
  r : Row
  s : Row
  t : Row
  u : Row
  v : Row
deriving DecidableEq, Inhabited

/-- The lane `x` rotated to the left by `0 < n < 64` places. -/
@[inline] def rotl (x n : UInt64) : UInt64 :=
  x <<< n ||| x >>> (64 - n)

namespace Row

/-- The row of zero lanes. -/
def zero : Row := ⟨0, 0, 0, 0, 0⟩

/-- The sum of two rows, lane by lane. -/
def add (p q : Row) : Row :=
  ⟨p.a ^^^ q.a, p.b ^^^ q.b, p.c ^^^ q.c, p.d ^^^ q.d, p.e ^^^ q.e⟩

/-- Every lane flipped where the next lane is 0 and the one after it is 1. -/
def chi (p : Row) : Row :=
  ⟨p.a ^^^ (~~~p.b &&& p.c), p.b ^^^ (~~~p.c &&& p.d), p.c ^^^ (~~~p.d &&& p.e),
    p.d ^^^ (~~~p.e &&& p.a), p.e ^^^ (~~~p.a &&& p.b)⟩

/-- What the column parities `p` add to each column: the parity of the column
    before it and, rotated by one place, of the column after it. -/
def spread (p : Row) : Row :=
  ⟨p.e ^^^ rotl p.b 1, p.a ^^^ rotl p.c 1, p.b ^^^ rotl p.d 1, p.c ^^^ rotl p.e 1,
    p.d ^^^ rotl p.a 1⟩

end Row

namespace State

/-- The state of zero lanes. -/
def zero : State := ⟨.zero, .zero, .zero, .zero, .zero⟩

/-- Adds column parities to all lanes. -/
def theta (k : State) : State :=
  let p := ((((k.r.add k.s).add k.t).add k.u).add k.v).spread
  ⟨k.r.add p, k.s.add p, k.t.add p, k.u.add p, k.v.add p⟩

/-- Rotates each lane by an amount of its own and moves it: lane `x` of row `y`
    becomes lane `y` of row `2 x + 3 y`, modulo 5. -/
def rotate (k : State) : State where
  r := ⟨k.r.a, rotl k.s.b 44, rotl k.t.c 43, rotl k.u.d 21, rotl k.v.e 14⟩
  s := ⟨rotl k.r.d 28, rotl k.s.e 20, rotl k.t.a 3, rotl k.u.b 45, rotl k.v.c 61⟩
  t := ⟨rotl k.r.b 1, rotl k.s.c 6, rotl k.t.d 25, rotl k.u.e 8, rotl k.v.a 18⟩
  u := ⟨rotl k.r.e 27, rotl k.s.a 36, rotl k.t.b 10, rotl k.u.c 15, rotl k.v.d 56⟩
  v := ⟨rotl k.r.c 62, rotl k.s.d 55, rotl k.t.e 39, rotl k.u.a 41, rotl k.v.b 2⟩

/-- One round, with the constant `i`. -/
def round (k : State) (i : UInt64) : State :=
  let k := k.theta.rotate
  let r := k.r.chi
  ⟨{ r with a := r.a ^^^ i }, k.s.chi, k.t.chi, k.u.chi, k.v.chi⟩

end State

/-- The constants of the rounds. -/
def constants : List UInt64 :=
  [0x0000000000000001, 0x0000000000008082, 0x800000000000808A, 0x8000000080008000,
   0x000000000000808B, 0x0000000080000001, 0x8000000080008081, 0x8000000000008009,
   0x000000000000008A, 0x0000000000000088, 0x0000000080008009, 0x000000008000000A,
   0x000000008000808B, 0x800000000000008B, 0x8000000000008089, 0x8000000000008003,
   0x8000000000008002, 0x8000000000000080, 0x000000000000800A, 0x800000008000000A,
   0x8000000080008081, 0x8000000000008080, 0x0000000080000001, 0x8000000080008008]

/-- The permutation. -/
def permute (k : State) : State :=
  constants.foldl State.round k

end CreditMachine.Keccak
