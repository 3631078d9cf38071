import RecordQuery.Number.Binary64
/-!
# Shortest decimal text of a number

The fewest decimal digits that read back as the same number and, among those, the nearest to it.
For one digit, two digits and so on the two neighbours of the number on that decimal grid are tested
against the interval of reals that round to the number. The text is positional from a ten-thousandth
up to sixteen digits before the point, and has an exponent otherwise.
-/

namespace RecordQuery

/-- A decimal number `digits · 10 ^ exponent`. -/
structure Decimal where
  digits : Nat
  exponent : Int
deriving DecidableEq, Repr

namespace Decimal

/-- The same number without zeros at the end of its digits, of which at most `fuel` are dropped. -/
def strip : Nat → Decimal → Decimal
  | 0, d => d
  | fuel + 1, d =>
    if d.digits ≠ 0 ∧ d.digits % 10 = 0 then strip fuel ⟨d.digits / 10, d.exponent + 1⟩ else d

/-- The ratio of the decimal number. -/
def ratio (d : Decimal) : Nat × Nat :=
  (d.digits * pow10 d.exponent, pow10 (-d.exponent))

end Decimal

namespace Binary64

/-! ## The interval of reals that round to a number -/

/-- The reals that round to a positive number, from `low / den` to `high / den`. -/
structure Basin where
  low : Nat
  high : Nat
  den : Nat
  closed : Bool

/-- The interval around `significand · 2 ^ exponent`. Its ends are half way to the neighbours, of
which the lower one is nearer below a power of two; they belong to it when the significand is even.
-/
def basin (significand : Nat) (exponent : Int) : Basin :=
  let (num, den) := ratio (4 * significand) exponent
  let unit := (ratio 1 exponent).1
  -- the neighbour below a power of two is only half as far away
  let narrow := significand = significandBound / 2 ∧ minExponent < exponent
  ⟨num - (if narrow then unit else 2 * unit), num + 2 * unit, 4 * den, significand % 2 = 0⟩

/-- The decimal number lies in the interval. -/
def Basin.holds (b : Basin) (d : Decimal) : Bool :=
  let (num, den) := d.ratio
  if b.closed then b.low * den ≤ num * b.den && num * b.den ≤ b.high * den
  else b.low * den < num * b.den && num * b.den < b.high * den

/-! ## The digits -/

/-- The power of ten of the first digit of a positive ratio. -/
def leadingPower (num den : Nat) : Int :=
  -- binary logarithms times the decimal logarithm of two are off by one at most
  let guess : Int := ((Nat.log2 num : Int) - Nat.log2 den) * 30103 / 100000
  let atLeast (power : Int) : Bool := den * pow10 power ≤ num * pow10 (-power)
  if atLeast (guess + 1) then guess + 1 else if atLeast guess then guess else guess - 1

/-- The two neighbours of a ratio on the grid of multiples of `10 ^ exponent`, the nearer one first
and the even one first when both are as near. -/
def neighbours (num den : Nat) (exponent : Int) : List Decimal :=
  let n := num * pow10 (-exponent)
  let d := den * pow10 exponent
  let below := n / d
  let nearest := roundDiv n d
  if nearest = below then [⟨below, exponent⟩, ⟨below + 1, exponent⟩]
  else [⟨below + 1, exponent⟩, ⟨below, exponent⟩]

/-- The shortest decimal number in the interval, looked for from `count` digits on and for `fuel`
further digits. -/
def search (b : Basin) (num den : Nat) (power : Int) (count : Nat) : Nat → Decimal
  | 0 => ⟨roundDiv num den, 0⟩
  | fuel + 1 =>
    -- if any number of this grid lies in the interval, so does one of the two neighbours
    match (neighbours num den (power + 1 - count)).find? b.holds with
    | some d => d.strip count
    | none => search b num den power (count + 1) fuel

/-- The shortest decimal number that reads back as `significand · 2 ^ exponent`. -/
def shortest (significand : Nat) (exponent : Int) : Decimal :=
  let (num, den) := ratio significand exponent
  search (basin significand exponent) num den (leadingPower num den) 1 17

/-! ## The text -/

/-- Positional texts begin at this power of ten of the first digit. -/
def positionalFrom : Int := -4

/-- Positional texts end below this power of ten of the first digit. -/
def positionalTo : Int := 16

/-- The decimal number with a point and at least one digit on both sides of it. -/
def positional (digits : List Char) (exponent : Int) : List Char :=
  if 0 ≤ exponent then digits ++ List.replicate exponent.toNat '0' ++ ['.', '0']
  else
    let places := (-exponent).toNat
    let padded := List.replicate (places + 1 - digits.length) '0' ++ digits
    padded.take (padded.length - places) ++ '.' :: padded.drop (padded.length - places)

/-- The decimal number with one digit before the point and an exponent of at least two digits. -/
def exponential (digits : List Char) (power : Int) : List Char :=
  let tail := digits.drop 1
  let magnitude := Nat.toDigits 10 power.natAbs
  digits.take 1 ++ (if tail.isEmpty then [] else '.' :: tail) ++
    ['e', if power < 0 then '-' else '+'] ++ List.replicate (2 - magnitude.length) '0' ++ magnitude

/-- The text of a decimal number. -/
def decimalText (d : Decimal) : List Char :=
  let digits := Nat.toDigits 10 d.digits
  let power : Int := d.exponent + (digits.length : Int) - 1
  if positionalFrom ≤ power ∧ power < positionalTo then positional digits d.exponent
  else exponential digits power

/-- The text of a number, which reads back as the number. -/
def text : Binary64 → String
  | .nan => "nan"
  | .infinity negative => if negative then "-inf" else "inf"
  | .finite negative significand exponent =>
    let magnitude :=
      if significand = 0 then ['0', '.', '0'] else decimalText (shortest significand exponent)
    String.ofList (if negative then '-' :: magnitude else magnitude)

end Binary64

end RecordQuery
