import Mathlib.Algebra.Group.Nat.Defs
import Mathlib.Algebra.Order.Group.Unbundled.Int
import RecordQuery.Number.Binary64
/-!
# Natural numbers as double-precision numbers

Which double-precision number a natural number is rounded to. Neighbours in the binade of `n` are
`unit n` apart, and `rounded n` is the multiple of this distance that is nearest to `n`. No number
with a significand of 53 bits is nearer (`rounded_nearest`), and the result is infinite from
`overflow` on, which lies half a unit below the first power of two that is out of range.
-/

namespace RecordQuery

/-! ## Rounding a quotient -/

/-- No multiple of the denominator is nearer than the one with the rounded quotient. -/
theorem roundDiv_nearest (num : Nat) {den : Nat} (h : 0 < den) (k : Nat) :
    ((num : Int) - (roundDiv num den * den : Nat)).natAbs ≤ ((num : Int) - (k * den : Nat)).natAbs := by
  obtain ⟨habove, hbelow⟩ := roundDiv_spec num h
  generalize roundDiv num den = q at habove hbelow ⊢
  rw [Nat.add_mul, Nat.mul_assoc, Nat.one_mul] at habove
  rw [Nat.mul_assoc] at hbelow
  rcases Nat.lt_trichotomy k q with hlt | rfl | hgt
  · have hstep : (k + 1) * den ≤ q * den := Nat.mul_le_mul_right den hlt
    rw [Nat.add_mul, Nat.one_mul] at hstep
    omega
  · exact Nat.le_refl _
  · have hstep : (q + 1) * den ≤ k * den := Nat.mul_le_mul_right den hgt
    rw [Nat.add_mul, Nat.one_mul] at hstep
    omega

/-- Halfway between two integers the even one is taken. -/
theorem roundDiv_half {k half : Nat} (hhalf : 0 < half) (hodd : k % 2 = 1) :
    roundDiv ((2 * k + 1) * half) (2 * half) = k + 1 := by
  have hnum : (2 * k + 1) * half = half + 2 * half * k := by
    rw [Nat.add_mul, Nat.one_mul, Nat.mul_right_comm, Nat.add_comm]
  have hlt : half < 2 * half := by omega
  have hdiv : (2 * k + 1) * half / (2 * half) = k := by
    rw [hnum, Nat.add_mul_div_left _ _ (Nat.zero_lt_of_lt hlt), Nat.div_eq_of_lt hlt, Nat.zero_add]
  have hmod : (2 * k + 1) * half % (2 * half) = half := by
    rw [hnum, Nat.add_mul_mod_self_left, Nat.mod_eq_of_lt hlt]
  unfold roundDiv
  simp only [hdiv, hmod]
  exact if_pos (.inr ⟨trivial, hodd⟩)

/-- A quotient is rounded to an odd integer or below exactly when it lies below the tie that follows. -/
theorem roundDiv_le_iff {num k half : Nat} (hhalf : 0 < half) (hodd : k % 2 = 1) :
    roundDiv num (2 * half) ≤ k ↔ num < (2 * k + 1) * half := by
  obtain ⟨habove, hbelow⟩ := roundDiv_spec num (by omega : 0 < 2 * half)
  constructor
  · intro hle
    have htie : num ≠ (2 * k + 1) * half := by
      rintro rfl
      rw [roundDiv_half hhalf hodd] at hle
      omega
    have hsteps : (2 * roundDiv num (2 * half) + 1) * (2 * half) ≤ (2 * k + 1) * (2 * half) :=
      Nat.mul_le_mul_right _ (by omega)
    rw [Nat.mul_left_comm (2 * k + 1)] at hsteps
    omega
  · intro hlt
    have hsteps : 2 * roundDiv num (2 * half) * (2 * half) < (2 * (k + 1)) * (2 * half) := by
      have hnext : 2 * (k + 1) * (2 * half) = 2 * ((2 * k + 1) * half) + 2 * half := by
        rw [Nat.mul_left_comm, ← Nat.mul_add, Nat.add_mul, Nat.mul_add 2 k 1, Nat.add_mul]
        omega
      omega
    have hstep := Nat.lt_of_mul_lt_mul_right hsteps
    omega

/-! ## Powers -/

@[simp] theorem pow2_natCast (k : Nat) : pow2 k = 2 ^ k := rfl

theorem pow2_of_nonpos {e : Int} (h : e ≤ 0) : pow2 e = 1 := by
  rw [pow2, Int.toNat_of_nonpos h]

namespace Binary64

/-! ## Units -/

/-- The distance between the double-precision numbers around a natural number. -/
def unit (n : Nat) : Nat := 2 ^ (Nat.log2 n - 52)

/-- The natural number rounded to its unit. -/
def rounded (n : Nat) : Nat := roundDiv n (unit n) * unit n

/-- The tie half a unit below `2 ^ (54 + k)`, which is rounded up to this power. -/
def tieBelow (k : Nat) : Nat := (2 ^ 54 - 1) * 2 ^ k

/-- The first natural number that is rounded to an infinite one, half a unit below `2 ^ 1024`. -/
def overflow : Nat := tieBelow 970

theorem unit_pos (n : Nat) : 0 < unit n :=
  Nat.two_pow_pos _

/-- Numbers of at most 53 bits are their own rounding. -/
theorem rounded_of_log2_le {n : Nat} (h : Nat.log2 n ≤ 52) : rounded n = n := by
  have hunit : unit n = 1 := by rw [unit, Nat.sub_eq_zero_of_le h, Nat.pow_zero]
  have hround := roundDiv_mul n Nat.one_pos
  rw [Nat.mul_one] at hround
  rw [rounded, hunit, hround, Nat.mul_one]

section

variable {n : Nat} (h : 52 ≤ Nat.log2 n)

include h

theorem two_pow_log2_eq : 2 ^ Nat.log2 n = 2 ^ 52 * unit n := by
  rw [unit, ← Nat.pow_add, Nat.add_sub_cancel' h]

/-- A number of 53 bits or more counts between `2 ^ 52` and `2 ^ 53` units. -/
theorem unit_bounds : 2 ^ 52 * unit n ≤ n ∧ n < 2 ^ 53 * unit n := by
  have hpow := two_pow_log2_eq h
  have hne : n ≠ 0 := by
    rintro rfl
    exact absurd h (by decide)
  have hlow := Nat.log2_self_le hne
  have hhigh := Nat.lt_log2_self (n := n)
  rw [Nat.pow_succ] at hhigh
  omega

/-- So does what it is rounded to. -/
theorem roundDiv_unit_bounds : 2 ^ 52 ≤ roundDiv n (unit n) ∧ roundDiv n (unit n) ≤ 2 ^ 53 := by
  obtain ⟨hlow, hhigh⟩ := unit_bounds h
  obtain ⟨habove, hbelow⟩ := roundDiv_spec n (unit_pos n)
  have hpos := unit_pos n
  generalize roundDiv n (unit n) = q at habove hbelow ⊢
  constructor
  · have hle : 2 * 2 ^ 52 * unit n ≤ (2 * q + 1) * unit n := by omega
    have hunits := Nat.le_of_mul_le_mul_right hle hpos
    omega
  · have hlt : 2 * q * unit n < (2 * 2 ^ 53 + 1) * unit n := by omega
    have hunits := Nat.lt_of_mul_lt_mul_right hlt
    omega

end

/-! ## Nearest numbers -/

/-- No number with a significand of at most 53 bits is nearer than the rounded one. -/
theorem rounded_nearest (n : Nat) {m : Nat} (hm : m < 2 ^ 53) (e : Nat) :
    ((n : Int) - rounded n).natAbs ≤ ((n : Int) - (m * 2 ^ e : Nat)).natAbs := by
  by_cases hsmall : Nat.log2 n ≤ 52
  · rw [rounded_of_log2_le hsmall, Int.sub_self]
    exact Nat.zero_le _
  · have hlarge : 52 ≤ Nat.log2 n := by omega
    have hmultiple := roundDiv_nearest n (unit_pos n)
    by_cases he : Nat.log2 n - 52 ≤ e
    · -- the other number is a multiple of the unit
      have hunits : m * 2 ^ e = m * 2 ^ (e - (Nat.log2 n - 52)) * unit n := by
        rw [unit, Nat.mul_assoc, ← Nat.pow_add, Nat.sub_add_cancel he]
      rw [hunits]
      exact hmultiple _
    · -- the other number is below the binade, which begins at a multiple of the unit
      have hbelow : m * 2 ^ e ≤ 2 ^ 52 * unit n := by
        rw [← two_pow_log2_eq hlarge]
        calc m * 2 ^ e ≤ 2 ^ 53 * 2 ^ e := Nat.mul_le_mul_right _ hm.le
          _ = 2 ^ (53 + e) := (Nat.pow_add 2 53 e).symm
          _ ≤ 2 ^ Nat.log2 n := Nat.pow_le_pow_right Nat.two_pos (by omega)
      have hfirst := hmultiple (2 ^ 52)
      have hlow := (unit_bounds hlarge).1
      rw [rounded]
      omega

/-! ## Overflow -/

/-- In lower binades what is rounded stays at a lower power of two. -/
theorem rounded_le_of_log2_lt {n k : Nat} (h : Nat.log2 n < 53 + k) : rounded n ≤ 2 ^ (53 + k) := by
  by_cases hsmall : Nat.log2 n ≤ 52
  · rw [rounded_of_log2_le hsmall]
    exact Nat.lt_log2_self.le.trans (Nat.pow_le_pow_right Nat.two_pos h)
  · have hunit : unit n ≤ 2 ^ k := Nat.pow_le_pow_right Nat.two_pos (by omega)
    rw [Nat.pow_add]
    exact Nat.mul_le_mul (roundDiv_unit_bounds (by omega)).2 hunit

/-- What is rounded stays below a power of two exactly below the tie that belongs to it. -/
theorem rounded_lt_iff (n k : Nat) : rounded n < 2 ^ (54 + k) ↔ n < tieBelow k := by
  have hpos : 0 < 2 ^ k := Nat.two_pow_pos k
  rw [Nat.pow_add, tieBelow]
  rcases Nat.lt_trichotomy (Nat.log2 n) (53 + k) with hlt | heq | hgt
  · -- in a lower binade both are small
    have hrounded := rounded_le_of_log2_lt hlt
    have hn : n < 2 ^ (53 + k) :=
      Nat.lt_log2_self.trans_le (Nat.pow_le_pow_right Nat.two_pos hlt)
    rw [Nat.pow_add] at hrounded hn
    omega
  · -- in the last binade below the power the tie counts
    have hunit : unit n = 2 * 2 ^ k := by
      have hexp : Nat.log2 n - 52 = k + 1 := by omega
      rw [unit, hexp, Nat.pow_succ, Nat.mul_comm]
    have htie : roundDiv n (2 * 2 ^ k) ≤ 2 ^ 53 - 1 ↔ n < (2 * (2 ^ 53 - 1) + 1) * 2 ^ k :=
      roundDiv_le_iff hpos (by decide)
    have htop : 2 ^ 54 * 2 ^ k = 2 ^ 53 * (2 * 2 ^ k) := by omega
    rw [rounded, hunit, htop, Nat.mul_lt_mul_right (by omega)]
    exact (Nat.lt_iff_le_pred (by decide)).trans htie
  · -- in a higher binade both are large
    have hlarge : 52 ≤ Nat.log2 n := by omega
    have hpow : 2 ^ 54 * 2 ^ k ≤ 2 ^ 52 * unit n := by
      rw [← two_pow_log2_eq hlarge, ← Nat.pow_add]
      exact Nat.pow_le_pow_right Nat.two_pos (by omega)
    have hn := (unit_bounds hlarge).1
    have hrounded : 2 ^ 52 * unit n ≤ rounded n :=
      Nat.mul_le_mul_right _ (roundDiv_unit_bounds hlarge).1
    omega

/-! ## Reading off -/

/-- The integer of a sign and a magnitude. -/
def signed (negative : Bool) (n : Nat) : Int := if negative then -n else n

/-- A number whose exponent is not negative is an integer. -/
theorem toInt?_finite (negative : Bool) (m e : Nat) :
    (finite negative m e).toInt? = some (signed negative (m * 2 ^ e)) := by
  have hratio : ratio m e = (m * 2 ^ e, 1) := by
    rw [ratio, pow2_natCast, pow2_of_nonpos (by omega)]
  simp only [toInt?, truncate?, hratio, Nat.mod_one, Nat.div_one, if_true, signed]

/-- An integer that is written with a fraction of zeros is still an integer. -/
theorem toInt?_finite_neg (negative : Bool) (n k : Nat) :
    (finite negative (n * 2 ^ k) (-(k : Int))).toInt? = some (signed negative n) := by
  have hratio : ratio (n * 2 ^ k) (-(k : Int)) = (n * 2 ^ k, 2 ^ k) := by
    rw [ratio, pow2_of_nonpos (by omega), neg_neg, pow2_natCast, Nat.mul_one]
  have hdiv : n * 2 ^ k / 2 ^ k = n := Nat.mul_div_cancel n (Nat.two_pow_pos k)
  simp only [toInt?, truncate?, hratio, Nat.mul_mod_left, hdiv, if_true, signed]

theorem toInt?_zeroOf (negative : Bool) : (zeroOf negative).toInt? = some (signed negative 0) := by
  have hzero : ∀ k : Nat, (finite negative 0 (-(k : Int))).toInt? = some (signed negative 0) := by
    intro k
    have h := toInt?_finite_neg negative 0 k
    rwa [Nat.zero_mul] at h
  exact hzero 1074

/-! ## Making numbers of natural numbers -/

theorem significandBound_eq : significandBound = 2 ^ 53 := rfl

/-- One bit less than the leading one is too few to leave out. -/
theorem significandBound_le_scaled {n : Nat} (hne : n ≠ 0) :
    significandBound * (scaled n 1 ((Nat.log2 n : Int) - 53)).2 ≤
      (scaled n 1 ((Nat.log2 n : Int) - 53)).1 := by
  have hlow := Nat.log2_self_le hne
  rw [scaled, significandBound, pow2_natCast, precision, Nat.one_mul]
  rcases Nat.le_total (Nat.log2 n) 53 with hle | hge
  · have hexp : -((Nat.log2 n : Int) - 53) = (53 - Nat.log2 n : Nat) := by omega
    rw [pow2_of_nonpos (e := (Nat.log2 n : Int) - 53) (by omega), hexp, pow2_natCast, Nat.mul_one]
    calc 2 ^ 53 = 2 ^ Nat.log2 n * 2 ^ (53 - Nat.log2 n) := by
          rw [← Nat.pow_add, Nat.add_sub_cancel' hle]
      _ ≤ n * 2 ^ (53 - Nat.log2 n) := Nat.mul_le_mul_right _ hlow
  · have hexp : (Nat.log2 n : Int) - 53 = (Nat.log2 n - 53 : Nat) := by omega
    rw [pow2_of_nonpos (e := -((Nat.log2 n : Int) - 53)) (by omega), hexp, pow2_natCast,
      Nat.mul_one, ← Nat.pow_add, Nat.add_sub_cancel' hge]
    exact hlow

/-- The exponent of a natural number puts its leading bit in front of the significand. -/
theorem exponentFor_one {n : Nat} (hne : n ≠ 0) : exponentFor n 1 = (Nat.log2 n : Int) - 52 := by
  have hlog : Nat.log2 1 = 0 := by decide
  have hguess : (Nat.log2 n : Int) - Nat.log2 1 - precision = (Nat.log2 n : Int) - 53 := by
    rw [hlog, precision]
    omega
  unfold exponentFor
  dsimp only
  rw [hguess, if_neg (Nat.not_lt.mpr (significandBound_le_scaled hne)), minExponent]
  omega

/-- A number of at most 53 bits is made exactly. -/
theorem ofRatio_of_log2_le (negative : Bool) {n : Nat} (hne : n ≠ 0) (h : Nat.log2 n ≤ 52) :
    (ofRatio negative n 1).toInt? = some (signed negative n) := by
  obtain ⟨k, hk⟩ := Nat.exists_eq_add_of_le h
  have hexp : exponentFor n 1 = -(k : Int) := by
    rw [exponentFor_one hne]
    omega
  have hscaled : scaled n 1 (-(k : Int)) = (n * 2 ^ k, 1) := by
    rw [scaled, neg_neg, pow2_natCast, pow2_of_nonpos (by omega)]
  have hround : roundDiv (n * 2 ^ k) 1 = n * 2 ^ k := by
    have hone := roundDiv_mul (n * 2 ^ k) Nat.one_pos
    rwa [Nat.mul_one] at hone
  have hlt : n * 2 ^ k < significandBound := by
    calc n * 2 ^ k < 2 ^ (Nat.log2 n + 1) * 2 ^ k :=
          Nat.mul_lt_mul_of_pos_right Nat.lt_log2_self (Nat.two_pow_pos k)
      _ = 2 ^ 53 := by
          rw [← Nat.pow_add]
          congr 1
          omega
  have hrange : ¬maxExponent < -(k : Int) := by
    rw [maxExponent]
    omega
  rw [ofRatio, if_neg hne]
  dsimp only
  rw [hexp, hscaled, hround, ofSignificand]
  simp only [hlt.ne, if_false, if_neg hrange]
  exact toInt?_finite_neg negative n k

/-- A number of at least 53 bits is made of its units. -/
theorem ofRatio_of_le_log2 (negative : Bool) {n : Nat} (h : 52 ≤ Nat.log2 n) :
    ofRatio negative n 1 =
      ofSignificand negative (roundDiv n (unit n)) (Nat.log2 n - 52 : Nat) := by
  have hne : n ≠ 0 := by
    rintro rfl
    exact absurd h (by decide)
  have hexp : exponentFor n 1 = (Nat.log2 n - 52 : Nat) := by
    rw [exponentFor_one hne]
    omega
  have hscaled : scaled n 1 (Nat.log2 n - 52 : Nat) = (n, unit n) := by
    rw [scaled, pow2_natCast, pow2_of_nonpos (by omega), Nat.mul_one, Nat.one_mul, unit]
  rw [ofRatio, if_neg hne]
  dsimp only
  rw [hexp, hscaled]

/-- A rounded significand makes a finite number as long as the value is in range. -/
theorem ofSignificand_of_lt {q e k : Nat} (hk : maxExponent = k + 1) (hlow : 2 ^ 52 ≤ q)
    (hhigh : q ≤ 2 ^ 53) (hrange : q * 2 ^ e < 2 ^ (54 + k)) :
    ∃ m f : Nat, m < 2 ^ 53 ∧ f ≤ k + 1 ∧ m * 2 ^ f = q * 2 ^ e ∧
      ∀ negative, ofSignificand negative q e = finite negative m f := by
  have hexp : ∀ {bits : Nat}, 2 ^ bits ≤ q → bits + e < 54 + k := by
    intro bits hbits
    have hle : 2 ^ (bits + e) ≤ q * 2 ^ e := by
      rw [Nat.pow_add]
      exact Nat.mul_le_mul_right _ hbits
    exact (Nat.pow_lt_pow_iff_right Nat.one_lt_two).mp (hle.trans_lt hrange)
  by_cases hcarried : q = 2 ^ 53
  · have hin := hexp hcarried.ge
    have hmax : ¬maxExponent < (e : Int) + 1 := by
      rw [hk]
      omega
    refine ⟨2 ^ 52, e + 1, by decide, by omega, ?_, fun negative => ?_⟩
    · rw [hcarried, ← Nat.pow_add, ← Nat.pow_add]
      congr 1
      omega
    · rw [ofSignificand]
      simp only [hcarried, significandBound_eq, if_true, if_neg hmax]
      rfl
  · have hin := hexp hlow
    have hmax : ¬maxExponent < (e : Int) := by
      rw [hk]
      omega
    refine ⟨q, e, by omega, by omega, rfl, fun negative => ?_⟩
    rw [ofSignificand]
    simp only [significandBound_eq, hcarried, if_false, if_neg hmax]

/-- Out of range the number that it makes is infinite. -/
theorem ofSignificand_of_le {q e k : Nat} (hk : maxExponent = k + 1) (hhigh : q ≤ 2 ^ 53)
    (hrange : 2 ^ (54 + k) ≤ q * 2 ^ e) (negative : Bool) :
    ofSignificand negative q e = infinity negative := by
  have hexp : 54 + k ≤ 53 + e ∧ (q ≠ 2 ^ 53 → 54 + k < 53 + e) := by
    rw [← Nat.pow_le_pow_iff_right Nat.one_lt_two, ← Nat.pow_lt_pow_iff_right Nat.one_lt_two,
      Nat.pow_add 2 53 e]
    refine ⟨hrange.trans (Nat.mul_le_mul_right _ hhigh), fun hne => hrange.trans_lt ?_⟩
    exact Nat.mul_lt_mul_of_pos_right (lt_of_le_of_ne hhigh hne) (Nat.two_pow_pos e)
  rw [ofSignificand]
  by_cases hcarried : q = 2 ^ 53
  · have hmax : maxExponent < (e : Int) + 1 := by
      rw [hk]
      omega
    simp only [significandBound_eq, hcarried, if_true, if_pos hmax]
  · have hout := hexp.2 hcarried
    have hmax : maxExponent < (e : Int) := by
      rw [hk]
      omega
    simp only [significandBound_eq, hcarried, if_false, if_pos hmax]

/-! ## Integers -/

/-- The integer is a double-precision number: its magnitude is a significand of at most 53 bits times a
power of two in range. -/
def Representable (n : Int) : Prop :=
  ∃ m e : Nat, m < 2 ^ 53 ∧ e ≤ 971 ∧ n.natAbs = m * 2 ^ e

/-- Of the integers that are double-precision numbers none is nearer. -/
def Nearest (n k : Int) : Prop :=
  Representable k ∧ ∀ other, Representable other → (n - k).natAbs ≤ (n - other).natAbs

theorem natAbs_signed (negative : Bool) (n : Nat) : (signed negative n).natAbs = n := by
  cases negative with
  | true => exact Int.natAbs_neg n
  | false => rfl

/-- Integers that are double-precision numbers are below the overflow. -/
theorem Representable.lt_overflow {n : Int} (h : Representable n) : n.natAbs < overflow := by
  obtain ⟨m, e, hm, he, hn⟩ := h
  have he : e ≤ 970 + 1 := he
  rw [hn, overflow]
  generalize 970 = k at he ⊢
  calc m * 2 ^ e ≤ (2 ^ 53 - 1) * 2 ^ (k + 1) :=
        Nat.mul_le_mul (by omega) (Nat.pow_le_pow_right Nat.two_pos he)
    _ = (2 ^ 54 - 2) * 2 ^ k := by rw [Nat.pow_succ]; omega
    _ < tieBelow k := Nat.mul_lt_mul_of_pos_right (by decide) (Nat.two_pow_pos k)

/-- A number of more than 1024 bits is beyond the overflow. -/
theorem overflow_le_of_log2 {n : Nat} (h : 54 + 970 ≤ Nat.log2 n) : overflow ≤ n := by
  have hne : n ≠ 0 := by
    rintro rfl
    exact absurd h (by decide)
  rw [overflow]
  generalize 970 = k at h ⊢
  calc tieBelow k ≤ 2 ^ 54 * 2 ^ k := Nat.mul_le_mul_right _ (by decide)
    _ = 2 ^ (54 + k) := (Nat.pow_add 2 54 k).symm
    _ ≤ 2 ^ Nat.log2 n := Nat.pow_le_pow_right Nat.two_pos h
    _ ≤ n := Nat.log2_self_le hne

/-- Below the overflow the number that is made of a natural number is its rounding, which is one of the
double-precision numbers. -/
theorem ofRatio_of_lt_overflow {n : Nat} (hne : n ≠ 0) (h : n < overflow) :
    Representable (rounded n) ∧
      ∀ negative, (ofRatio negative n 1).toInt? = some (signed negative (rounded n)) := by
  by_cases hsmall : Nat.log2 n ≤ 52
  · rw [rounded_of_log2_le hsmall]
    refine ⟨⟨n, 0, ?_, Nat.zero_le _, (Nat.mul_one n).symm⟩, fun negative =>
      ofRatio_of_log2_le negative hne hsmall⟩
    exact Nat.lt_log2_self.trans_le (Nat.pow_le_pow_right Nat.two_pos (by omega))
  · have hlarge : 52 ≤ Nat.log2 n := by omega
    obtain ⟨hlow, hhigh⟩ := roundDiv_unit_bounds hlarge
    obtain ⟨m, e, hm, he, hvalue, hmade⟩ :=
      ofSignificand_of_lt rfl hlow hhigh ((rounded_lt_iff n 970).mpr h)
    refine ⟨⟨m, e, hm, he, ?_⟩, fun negative => ?_⟩
    · rw [hvalue]
      rfl
    · rw [ofRatio_of_le_log2 negative hlarge, hmade, toInt?_finite, hvalue]
      rfl

theorem two_pow_le_tieBelow (k : Nat) : 2 ^ 52 ≤ tieBelow k := by
  calc 2 ^ 52 ≤ 2 ^ 54 - 1 := by decide
    _ ≤ tieBelow k := Nat.le_mul_of_pos_right _ (Nat.two_pow_pos k)

/-- From the overflow on it is infinite. -/
theorem ofRatio_of_overflow_le {n : Nat} (h : overflow ≤ n) (negative : Bool) :
    ofRatio negative n 1 = infinity negative := by
  have hrange := Nat.not_lt.mp (mt (rounded_lt_iff n 970).mp (Nat.not_lt.mpr h))
  have hle := (two_pow_le_tieBelow 970).trans h
  have hlarge : 52 ≤ Nat.log2 n := (Nat.le_log2 (by omega)).mpr hle
  rw [ofRatio_of_le_log2 negative hlarge]
  exact ofSignificand_of_le rfl (roundDiv_unit_bounds hlarge).2 hrange negative

/-! ## Nearest integers -/

/-- A double-precision number is the nearest one to itself. -/
theorem Nearest.eq_of_representable {n k : Int} (h : Nearest n k) (hn : Representable n) : k = n := by
  have hle := h.2 n hn
  omega

/-- The rounding of a magnitude is the nearest one with either sign. -/
theorem nearest_signed (negative : Bool) {n : Nat} (h : Representable (rounded n)) :
    Nearest (signed negative n) (signed negative (rounded n)) := by
  constructor
  · rw [Representable, natAbs_signed]
    exact h
  · rintro other ⟨m, e, hm, -, hother⟩
    have hnearest := rounded_nearest n hm e
    rw [← hother] at hnearest
    cases negative with
    | true =>
        simp only [signed, if_true]
        omega
    | false =>
        simp only [signed, Bool.false_eq_true, if_false]
        omega

/-- Far beyond the range an integer is not worked out; closer by it is rounded. -/
theorem ofDecimal_eq_ite (negative : Bool) {n : Nat} (hne : n ≠ 0) :
    ofDecimal negative n 0 =
      if 400 < (Nat.log2 n : Int) / 4 then infinity negative else ofRatio negative n 1 := by
  have hsmall : ¬(n = 0 ∨ (Nat.log2 n : Int) + 0 < -400) := by omega
  have hone : pow10 0 = 1 := rfl
  unfold ofDecimal
  dsimp only
  rw [if_neg hsmall, Int.add_zero, neg_zero, hone, Nat.mul_one]

/-- An integer numeral below the overflow is the nearest integer that is a double-precision number. -/
theorem ofDecimal_of_lt_overflow (negative : Bool) {n : Nat} (h : n < overflow) :
    ∃ k, (ofDecimal negative n 0).toInt? = some k ∧ Nearest (signed negative n) k := by
  by_cases hne : n = 0
  · subst hne
    have hzero : rounded 0 = 0 := rounded_of_log2_le (by decide)
    refine ⟨signed negative 0, toInt?_zeroOf negative, ?_⟩
    have hnearest := nearest_signed negative (n := 0) ⟨0, 0, by decide, by decide, by rw [hzero]; rfl⟩
    rwa [hzero] at hnearest
  · have hlog : Nat.log2 n < 54 + 970 := by
      by_contra hlarge
      exact absurd (overflow_le_of_log2 (Nat.not_lt.mp hlarge)) (Nat.not_le.mpr h)
    obtain ⟨hrepresentable, hmade⟩ := ofRatio_of_lt_overflow hne h
    rw [ofDecimal_eq_ite negative hne, if_neg (by omega)]
    exact ⟨_, hmade negative, nearest_signed negative hrepresentable⟩

/-- From the overflow on it is infinite. -/
theorem ofDecimal_of_overflow_le (negative : Bool) {n : Nat} (h : overflow ≤ n) :
    ofDecimal negative n 0 = infinity negative := by
  have hle := (two_pow_le_tieBelow 970).trans h
  have hne : n ≠ 0 := by omega
  rw [ofDecimal_eq_ite negative hne, ofRatio_of_overflow_le h, ite_self]

end Binary64

end RecordQuery
