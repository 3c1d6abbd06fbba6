/-!
# Hexadecimal text

Bytes are written as pairs of lower-case digits, the high half first, and
numbers without leading zeros. `ofDigits?` reads pairs of digits back, in
either case (`ofDigits?_digits`).
-/

namespace CreditMachine.Hex

/-- The digit of the value `n < 16`. -/
def digit (n : Nat) : Char :=
  if n < 10 then Char.ofNat (48 + n) else Char.ofNat (87 + n)

/-- The value of a digit, in either case. -/
def value? (c : Char) : Option Nat :=
  if '0' ≤ c ∧ c ≤ '9' then some (c.toNat - 48)
  else if 'a' ≤ c ∧ c ≤ 'f' then some (c.toNat - 87)
  else if 'A' ≤ c ∧ c ≤ 'F' then some (c.toNat - 55)
  else none

/-- The digits of the bytes `bs`, two for each. -/
def digits (bs : List UInt8) : List Char :=
  bs.flatMap fun b => [digit (b.toNat / 16), digit (b.toNat % 16)]

/-- The bytes whose digits are `cs`. -/
def ofDigits? : List Char → Option (List UInt8)
  | [] => some []
  | [_] => none
  | c :: d :: cs => do
    let x ← value? c
    let y ← value? d
    let bs ← ofDigits? cs
    return UInt8.ofNat (16 * x + y) :: bs

/-- The text of the bytes `bs`. -/
def ofBytes (bs : List UInt8) : String :=
  String.ofList (digits bs)

/-- The text of the number `n`, without leading zeros. -/
def ofNat (n : Nat) : String :=
  String.ofList (Nat.toDigits 16 n)

theorem value?_digit : ∀ n < 16, value? (digit n) = some n := by
  decide

theorem ofDigits?_digits (bs : List UInt8) : ofDigits? (digits bs) = some bs := by
  induction bs with
  | nil => rfl
  | cons b bs ih =>
    have hb := b.toNat_lt
    have h : digits (b :: bs) = digit (b.toNat / 16) :: digit (b.toNat % 16) :: digits bs := rfl
    simp only [h, ofDigits?, value?_digit _ (show b.toNat / 16 < 16 by omega),
      value?_digit _ (show b.toNat % 16 < 16 by omega), ih, Option.bind_eq_bind, Option.bind_some,
      Option.pure_def, Nat.div_add_mod, UInt8.ofNat_toNat]

end CreditMachine.Hex
