import CreditMachine.Text.Range

/-!
# Characters without a glyph

The characters that leave no mark of their own on a page: controls, format
characters, separators other than the space, private use, and the fillers that
stand for an absent letter in Hangul.
-/

namespace CreditMachine.Text

/-- The ranges of the general categories `Cc`, `Cf`, `Co`, `Zl`, `Zp` and `Zs`,
    less the space, and of the letters that have the Unicode property
    `Default_Ignorable_Code_Point`: the fillers. -/
def invisibleRanges : List (Nat × Nat) :=
  [(0x0000, 0x001F), (0x007F, 0x00A0), (0x00AD, 0x00AD), (0x0600, 0x0605), (0x061C, 0x061C),
   (0x06DD, 0x06DD), (0x070F, 0x070F), (0x0890, 0x0891), (0x08E2, 0x08E2), (0x115F, 0x1160),
   (0x1680, 0x1680), (0x180E, 0x180E), (0x2000, 0x200F), (0x2028, 0x202F), (0x205F, 0x2064),
   (0x2066, 0x206F), (0x3000, 0x3000), (0x3164, 0x3164), (0xE000, 0xF8FF), (0xFEFF, 0xFEFF),
   (0xFFA0, 0xFFA0), (0xFFF9, 0xFFFB), (0x110BD, 0x110BD), (0x110CD, 0x110CD), (0x13430, 0x1343F),
   (0x1BCA0, 0x1BCA3), (0x1D173, 0x1D17A), (0xE0001, 0xE0001), (0xE0020, 0xE007F),
   (0xF0000, 0xFFFFD), (0x100000, 0x10FFFD)]

/-- `c` is a control, a format character, a separator other than the space, for
    private use, or a filler. -/
def isInvisible (c : Char) : Bool :=
  inRanges invisibleRanges c

end CreditMachine.Text
