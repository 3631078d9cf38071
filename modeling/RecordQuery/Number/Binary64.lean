/-!
# Double-precision numbers

Binary floating-point numbers with a significand of 53 bits, as exact data: a sign, a significand
and a power of two. Every number is made by rounding an exact ratio, to the nearest number and to
an even significand on a tie. `roundDiv_spec` says how a quotient rounds.
-/

namespace RecordQuery

/-- A double-precision number. A finite one is `± significand · 2 ^ exponent`. -/
inductive Binary64
  | nan
  | infinity (negative : Bool)
  | finite (negative : Bool) (significand : Nat) (exponent : Int)
deriving DecidableEq, Repr

/-! ## Rounding a quotient -/

/-- The quotient rounded to the nearest integer, a tie going to the even one. -/
def roundDiv (num den : Nat) : Nat :=
  let quotient := num / den
  let twice := 2 * (num % den)
  if den < twice ∨ (twice = den ∧ quotient % 2 = 1) then quotient + 1 else quotient

/-- The rounded quotient is within half a unit of the exact one. -/
theorem roundDiv_spec (num : Nat) {den : Nat} (h : 0 < den) :
    2 * num ≤ (2 * roundDiv num den + 1) * den ∧ 2 * roundDiv num den * den ≤ 2 * num + den := by
  have hdiv := Nat.div_add_mod num den
  have hmod := Nat.mod_lt num h
  generalize hq : num / den = q at hdiv
  generalize hr : num % den = r at hdiv hmod
  have hmul : den * q = q * den := Nat.mul_comm den q
  unfold roundDiv
  simp only [hq, hr]
  split
  · next hup =>
      have hexp : 2 * (q + 1) * den = 2 * (q * den) + 2 * den := by
        rw [Nat.mul_assoc, Nat.add_mul, Nat.mul_add, Nat.one_mul]
      have hexp' : (2 * (q + 1) + 1) * den = 2 * (q * den) + 2 * den + den := by
        rw [Nat.add_mul, hexp, Nat.one_mul]
      omega
  · next hdown =>
      have hexp : 2 * q * den = 2 * (q * den) := Nat.mul_assoc 2 q den
      have hexp' : (2 * q + 1) * den = 2 * (q * den) + den := by
        rw [Nat.add_mul, hexp, Nat.one_mul]
      omega

/-- A quotient without remainder is not changed by rounding. -/
theorem roundDiv_mul (n : Nat) {den : Nat} (h : 0 < den) : roundDiv (n * den) den = n := by
  unfold roundDiv
  have hdiv : n * den / den = n := Nat.mul_div_cancel n h
  have hmod : n * den % den = 0 := Nat.mul_mod_left n den
  simp only [hdiv, hmod]
  rw [if_neg]
  omega

/-! ## Powers -/

/-- The power of two with an exponent that is not negative; a negative one counts as zero. -/
def pow2 (exponent : Int) : Nat := Nat.pow 2 exponent.toNat

/-- The power of ten with an exponent that is not negative; a negative one counts as zero. -/
def pow10 (exponent : Int) : Nat := Nat.pow 10 exponent.toNat

namespace Binary64

/-! ## Making numbers -/

/-- The number of bits of a significand. -/
def precision : Nat := 53

/-- The first significand that is too long. -/
def significandBound : Nat := pow2 precision

/-- The smallest exponent. -/
def minExponent : Int := -1074

/-- The largest exponent. -/
def maxExponent : Int := 971

/-- Positive or negative zero. -/
def zeroOf (negative : Bool) : Binary64 := .finite negative 0 minExponent

/-- The ratio with its numerator and denominator scaled so that it counts units of
`2 ^ exponent`. -/
def scaled (num den : Nat) (exponent : Int) : Nat × Nat :=
  (num * pow2 (-exponent), den * pow2 exponent)

/-- The exponent at which a positive ratio has a significand of full precision, unless it is too
small for one. -/
def exponentFor (num den : Nat) : Int :=
  -- the binary logarithms place the ratio within a factor of two
  let guess : Int := (Nat.log2 num : Int) - Nat.log2 den - precision
  let (units, per) := scaled num den guess
  max minExponent (if units < significandBound * per then guess else guess + 1)

/-- The number with the given rounded significand; a significand that rounding made too long drops
its last bit, and a number beyond the largest is infinite. -/
def ofSignificand (negative : Bool) (significand : Nat) (exponent : Int) : Binary64 :=
  let carried := significand = significandBound
  let m := if carried then significandBound / 2 else significand
  let e := if carried then exponent + 1 else exponent
  if maxExponent < e then .infinity negative else .finite negative m e

/-- The number nearest to a ratio of naturals, with the given sign. -/
def ofRatio (negative : Bool) (num den : Nat) : Binary64 :=
  if num = 0 then zeroOf negative
  else
    let exponent := exponentFor num den
    let (units, per) := scaled num den exponent
    ofSignificand negative (roundDiv units per) exponent

/-- The number nearest to a natural number. -/
def ofNat (n : Nat) : Binary64 := ofRatio false n 1

/-- The number nearest to `± digits · 10 ^ exponent`. Far beyond the range of exponents the power of
ten is not worked out. -/
def ofDecimal (negative : Bool) (digits : Nat) (exponent : Int) : Binary64 :=
  -- bounds from below and above on the decimal logarithm of the number
  let magnitude : Int := (Nat.log2 digits : Int) / 4 + exponent
  let ceiling : Int := (Nat.log2 digits : Int) + exponent
  if digits = 0 ∨ ceiling < -400 then zeroOf negative
  else if 400 < magnitude then .infinity negative
  else ofRatio negative (digits * pow10 exponent) (pow10 (-exponent))

/-! ## Reading numbers off -/

/-- A finite number as a ratio of naturals, without its sign. -/
def ratio (significand : Nat) (exponent : Int) : Nat × Nat :=
  (significand * pow2 exponent, pow2 (-exponent))

/-- The number is positive or negative zero. -/
def isZero : Binary64 → Bool
  | .finite _ 0 _ => true
  | _ => false

/-- A finite number without its fraction, towards zero. -/
def truncate? : Binary64 → Option Int
  | .finite negative m e =>
    let (num, den) := ratio m e
    let whole : Int := ↑(num / den)
    some (if negative then -whole else whole)
  | _ => none

/-- The integer that a number is exactly. -/
def toInt? : Binary64 → Option Int
  | .finite negative m e =>
    let (num, den) := ratio m e
    if num % den = 0 then truncate? (.finite negative m e) else none
  | _ => none

/-! ## Order -/

/-- The signed numerator and the denominator of a number, where an infinite one stands above every
ratio of its sign. -/
def key? : Binary64 → Option (Int × Nat)
  | .nan => none
  | .infinity negative => some (if negative then -1 else 1, 0)
  | .finite negative m e =>
    let (num, den) := ratio m e
    some (if negative then -(num : Int) else num, den)

/-- The first number is smaller; nothing is smaller or greater than an undefined one. -/
def lt (a b : Binary64) : Bool :=
  match a.key?, b.key? with
  | some (n, 0), some (m, 0) => decide (n < m)
  | some (n, d), some (m, e) => decide (n * e < m * d)
  | _, _ => false

/-- The first number is smaller or equal. -/
def le (a b : Binary64) : Bool :=
  match a.key?, b.key? with
  | some (n, 0), some (m, 0) => decide (n ≤ m)
  | some (n, d), some (m, e) => decide (n * e ≤ m * d)
  | _, _ => false

end Binary64

end RecordQuery
