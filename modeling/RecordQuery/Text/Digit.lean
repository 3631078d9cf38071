import RecordQuery.Text.CodePoint
/-!
# Decimal digits

The decimal digits of all scripts. Each script has ten of them in a row, so a table of zeros gives
both the class and the value. The wider class of digit-like characters adds superscripts, subscripts
and enclosed digits, which have no decimal value.
-/

namespace RecordQuery.Text.Digit

/-- The code point of the digit zero in every script, ascending. -/
def zeros : List Nat := [
    0x0030, 0x0660, 0x06f0, 0x07c0, 0x0966, 0x09e6, 0x0a66, 0x0ae6, 0x0b66, 0x0be6,
    0x0c66, 0x0ce6, 0x0d66, 0x0de6, 0x0e50, 0x0ed0, 0x0f20, 0x1040, 0x1090, 0x17e0,
    0x1810, 0x1946, 0x19d0, 0x1a80, 0x1a90, 0x1b50, 0x1bb0, 0x1c40, 0x1c50, 0xa620,
    0xa8d0, 0xa900, 0xa9d0, 0xa9f0, 0xaa50, 0xabf0, 0xff10, 0x104a0, 0x10d30, 0x11066,
    0x110f0, 0x11136, 0x111d0, 0x112f0, 0x11450, 0x114d0, 0x11650, 0x116c0, 0x11730, 0x118e0,
    0x11950, 0x11c50, 0x11d50, 0x11da0, 0x16a60, 0x16ac0, 0x16b50, 0x1d7ce, 0x1d7d8, 0x1d7e2,
    0x1d7ec, 0x1d7f6, 0x1e140, 0x1e2f0, 0x1e950, 0x1fbf0]

/-- The value of a decimal digit of any script. -/
def value? (c : Char) : Option Nat :=
  (zeros.find? fun base => base ≤ c.toNat && c.toNat < base + 10).map (c.toNat - ·)

/-- The character is a decimal digit of some script. -/
def isDecimal (c : Char) : Bool :=
  (value? c).isSome

/-- Characters that are written like a digit but have no place in a decimal numeral. -/
def ornamentalRanges : CodeRanges := [
    (0x00b2, 0x00b3), (0x00b9, 0x00b9), (0x1369, 0x1371), (0x19da, 0x19da), (0x2070, 0x2070), (0x2074, 0x2079),
    (0x2080, 0x2089), (0x2460, 0x2468), (0x2474, 0x247c), (0x2488, 0x2490), (0x24ea, 0x24ea), (0x24f5, 0x24fd),
    (0x24ff, 0x24ff), (0x2776, 0x277e), (0x2780, 0x2788), (0x278a, 0x2792), (0x10a40, 0x10a43), (0x10e60, 0x10e68),
    (0x11052, 0x1105a), (0x1f100, 0x1f10a)]

/-- The character is a digit, be it decimal or ornamental. -/
def isDigitLike (c : Char) : Bool :=
  isDecimal c || ornamentalRanges.holds c

/-- The number that a row of digit values denotes in base ten. -/
def toNat (digits : List Nat) : Nat :=
  digits.foldl (fun n d => 10 * n + d) 0

/-- One more digit multiplies by ten and adds its value. -/
theorem toNat_concat (digits : List Nat) (d : Nat) :
    toNat (digits ++ [d]) = 10 * toNat digits + d := by
  simp [toNat]

end RecordQuery.Text.Digit
