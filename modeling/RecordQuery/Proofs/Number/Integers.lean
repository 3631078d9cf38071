import Mathlib.Data.List.Induction
import Mathlib.Data.Nat.Digits.Defs
import RecordQuery.Proofs.Number.Digits
import RecordQuery.Proofs.Number.Rounding
import RecordQuery.Value.Typing
/-!
# Integers in texts

A text of an optional sign and ASCII digits denotes an integer, and `Denotes` says which, however long
the text is. Typing and coercing such a text go through the nearest double-precision number, so that
what they give is the integer itself only when it is such a number (`typed_integer_iff`).
-/

namespace RecordQuery

open Text

/-! ## Texts of integers -/

/-- The number that a row of ASCII digits denotes in base ten. -/
def decimalValue (digits : List Char) : Nat :=
  Nat.ofDigits 10 (digits.map fun c => c.toNat - '0'.toNat).reverse

/-- The characters are ASCII digits, and there is at least one. -/
def DecimalRow (digits : List Char) : Prop :=
  digits ≠ [] ∧ ∀ c ∈ digits, c.isDigit = true

/-- The text denotes the integer: it is a row of ASCII digits, with a sign or without one. -/
inductive Denotes : String → Int → Prop
  | plain {digits : List Char} : DecimalRow digits →
      Denotes (String.ofList digits) (decimalValue digits)
  | plus {digits : List Char} : DecimalRow digits →
      Denotes (String.ofList ('+' :: digits)) (decimalValue digits)
  | minus {digits : List Char} : DecimalRow digits →
      Denotes (String.ofList ('-' :: digits)) (-(decimalValue digits : Int))

/-! ## Digits -/

namespace Text

theorem isDigit_iff {c : Char} : c.isDigit = true ↔ 0x30 ≤ c.toNat ∧ c.toNat < 0x30 + 10 := by
  simp only [Char.isDigit, Bool.and_eq_true, decide_eq_true_eq, ge_iff_le, UInt32.le_iff_toNat_le]
  exact and_congr_right fun _ => Nat.lt_succ_iff.symm

/-- An ASCII digit has its distance from the digit zero as its value. -/
theorem Digit.value?_of_isDigit {c : Char} (h : c.isDigit = true) :
    value? c = some (c.toNat - '0'.toNat) := by
  obtain ⟨hlow, hhigh⟩ := isDigit_iff.mp h
  rw [value?, zeros, List.find?_cons_of_pos (by simp [hlow, hhigh])]
  rfl

/-- Digit values are read from the front as well as from the back. -/
theorem Digit.toNat_eq_ofDigits (values : List Nat) :
    toNat values = Nat.ofDigits 10 values.reverse := by
  induction values using List.reverseRecOn with
  | nil => rfl
  | append_singleton values d ih =>
      rw [toNat_concat, ih, List.reverse_concat, Nat.ofDigits_cons]
      exact Nat.add_comm _ _

theorem toLower_of_isDigit {c : Char} (h : c.isDigit = true) : c.toLower = c := by
  have hnot : ¬(c.val ≥ 'A'.val ∧ c.val ≤ 'Z'.val) := by
    rintro ⟨hupper, -⟩
    have hletter : 0x41 ≤ c.toNat := UInt32.le_iff_toNat_le.mp hupper
    have hdigit := (isDigit_iff.mp h).2
    omega
  exact dif_neg hnot

end Text

theorem Numeral.takeDigits_of_isDigit {digits : List Char} (h : ∀ c ∈ digits, c.isDigit = true) :
    takeDigits digits = (digits.map fun c => c.toNat - '0'.toNat, []) := by
  induction digits with
  | nil => rfl
  | cons c rest ih =>
      rw [List.forall_mem_cons] at h
      rw [takeDigits, Digit.value?_of_isDigit h.1, ih h.2]
      rfl

/-! ## Signs and digits -/

/-- The signs and the ASCII digits. -/
def integerRanges : CodeRanges := [(0x2b, 0x2b), (0x2d, 0x2d), (0x30, 0x39)]

/-- The characters of the text of an integer split into a sign, or none, and a row of digits, and its
number with this sign is the integer. -/
theorem Denotes.parts {s : String} {n : Int} (h : Denotes s n) :
    ∃ negative digits, DecimalRow digits ∧ Numeral.takeSign s.toList = (negative, digits) ∧
      (∀ c ∈ s.toList, integerRanges.holds c = true) ∧
      n = Binary64.signed negative (decimalValue digits) := by
  have hholds : ∀ {digits : List Char}, DecimalRow digits → ∀ c ∈ digits,
      integerRanges.holds c = true := by
    intro digits hrow c hc
    obtain ⟨hlow, hhigh⟩ := isDigit_iff.mp (hrow.2 c hc)
    exact (CodeRanges.holds_iff _ c).mpr ⟨(0x30, 0x39), by decide, hlow, Nat.le_of_lt_succ hhigh⟩
  cases h with
  | @plain digits hrow =>
      refine ⟨false, digits, hrow, ?_, ?_, rfl⟩
      · rw [String.toList_ofList]
        unfold Numeral.takeSign
        split
        · exact absurd (hrow.2 '-' List.mem_cons_self) (by decide)
        · exact absurd (hrow.2 '+' List.mem_cons_self) (by decide)
        · rfl
      · rw [String.toList_ofList]
        exact hholds hrow
  | @plus digits hrow =>
      refine ⟨false, digits, hrow, by rw [String.toList_ofList]; rfl, ?_, rfl⟩
      rw [String.toList_ofList, List.forall_mem_cons]
      exact ⟨by decide, hholds hrow⟩
  | @minus digits hrow =>
      refine ⟨true, digits, hrow, by rw [String.toList_ofList]; rfl, ?_, rfl⟩
      rw [String.toList_ofList, List.forall_mem_cons]
      exact ⟨by decide, hholds hrow⟩

/-- In a text of signs and digits there is nothing to cut off and no underscore to drop. -/
theorem plain_of_integerRanges {cs : List Char} (h : ∀ c ∈ cs, integerRanges.holds c = true) :
    trimBy isBlank cs = cs ∧ trimBy isPadding cs = cs ∧ joinDigits? ' ' cs = some cs := by
  have hblank : ∀ c ∈ cs, isBlank c = false := fun c hc =>
    CodeRanges.not_holds_of_apart (by decide) (h c hc)
  refine ⟨trimBy_of_forall_not hblank, trimBy_of_forall_not fun c hc => ?_,
    joinDigits?_of_not_mem (fun hmem => ?_) ' '⟩
  · rw [isPadding, hblank c hc]
    rfl
  · exact absurd (h '_' hmem) (by decide)

/-- A row of digits is no word of letters. -/
theorem not_isWord_of_row (word : String) (hword : word.toList.any Char.isDigit = false)
    {digits : List Char} (hrow : DecimalRow digits) : isWord word digits = false := by
  obtain ⟨c, rest, rfl⟩ := List.exists_cons_of_ne_nil hrow.1
  have hdigit : c.isDigit = true := hrow.2 c List.mem_cons_self
  refine not_isWord_of_mem List.mem_cons_self fun hmem => ?_
  rw [toLower_of_isDigit hdigit] at hmem
  have hany : word.toList.any Char.isDigit = true := List.any_eq_true.mpr ⟨c, hmem, hdigit⟩
  exact absurd hword (by simp [hany])

/-! ## Reading -/

/-- The numeral of a sign and a row of digits. -/
def rowNumeral (negative : Bool) (digits : List Char) : Numeral :=
  ⟨negative, digits.map fun c => c.toNat - '0'.toNat, [], 0, true⟩

theorem read?_of_row {cs digits : List Char} {negative : Bool}
    (hsign : Numeral.takeSign cs = (negative, digits)) (hrow : DecimalRow digits) :
    Numeral.read? cs = some (rowNumeral negative digits) := by
  obtain ⟨c, rest, rfl⟩ := List.exists_cons_of_ne_nil hrow.1
  rw [Numeral.read?, hsign]
  dsimp only
  rw [Numeral.takeDigits_of_isDigit hrow.2]
  rfl

theorem toBinary64_rowNumeral (negative : Bool) (digits : List Char) :
    (rowNumeral negative digits).toBinary64 = .ofDecimal negative (decimalValue digits) 0 := by
  rw [Numeral.toBinary64, rowNumeral, List.append_nil, Digit.toNat_eq_ofDigits]
  rfl

/-- The text of an integer is read as the double-precision number that is nearest to it, and as an
integer if that number is one. -/
theorem readNumber_of_denotes {s : String} {n : Int} (h : Denotes s n) :
    isNumeric s = true ∧ ∃ negative digits, n = Binary64.signed negative (decimalValue digits) ∧
      readNumber s =
        match (Binary64.ofDecimal negative (decimalValue digits) 0).toInt? with
        | some k => .ok (.int k)
        | none => .ok (.float (Binary64.ofDecimal negative (decimalValue digits) 0)) := by
  obtain ⟨negative, digits, hrow, hsign, hchars, hn⟩ := h.parts
  obtain ⟨hblank, hpadding, hjoin⟩ := plain_of_integerRanges hchars
  have hread := read?_of_row hsign hrow
  have hnumeric : isNumeric s = true := by
    rw [isNumeric, hblank, hread]
    rfl
  have hvalue : Binary64.ofText? s = some (.ofDecimal negative (decimalValue digits) 0) := by
    unfold Binary64.ofText?
    simp only [hpadding, hsign, not_isWord_of_row "inf" rfl hrow,
      not_isWord_of_row "infinity" rfl hrow, not_isWord_of_row "nan" rfl hrow,
      Bool.or_self, Bool.false_eq_true, if_false]
    rw [hjoin]
    simp [hread, toBinary64_rowNumeral]
  refine ⟨hnumeric, negative, digits, hn, ?_⟩
  rw [readNumber, hvalue, hblank, hread]
  simp only [rowNumeral]
  cases (Binary64.ofDecimal negative (decimalValue digits) 0).toInt? with
  | none => rfl
  | some k => rfl

/-! ## Typing -/

/-- Any text that is a numeral is typed by reading its number. -/
theorem typedText_of_isNumeric {s : String} (h : isNumeric s = true) : typedText s = readNumber s := by
  have hother : ∀ word, isNumeric word = false → s ≠ word := by
    rintro word hword rfl
    rw [h] at hword
    exact absurd hword (by simp)
  have hnull : isNullWord s = false := by
    rw [isNullWord, Bool.or_eq_false_iff]
    exact ⟨beq_false_of_ne (hother "null" (by decide)),
      beq_false_of_ne (hother "undefined" (by decide))⟩
  have htruth : ¬(s = "true" ∨ s = "false") := by
    rintro (htrue | hfalse)
    · exact hother "true" (by decide) htrue
    · exact hother "false" (by decide) hfalse
  rw [typedText, if_neg (hother "" (by decide)), hnull, if_neg Bool.false_ne_true, if_neg htruth,
    if_pos h]

/-- The text of an integer is read as the nearest integer that is a double-precision number, and from
the overflow on as an infinite number. -/
theorem readNumber_integer {s : String} {n : Int} (h : Denotes s n) :
    (n.natAbs < Binary64.overflow ∧ ∃ k, readNumber s = .ok (.int k) ∧ Binary64.Nearest n k) ∨
      (Binary64.overflow ≤ n.natAbs ∧ readNumber s = .ok (.float (.infinity (n < 0)))) := by
  obtain ⟨-, negative, digits, rfl, hread⟩ := readNumber_of_denotes h
  rw [Binary64.natAbs_signed]
  rcases Nat.lt_or_ge (decimalValue digits) Binary64.overflow with hlt | hge
  · obtain ⟨k, hk, hnearest⟩ := Binary64.ofDecimal_of_lt_overflow negative hlt
    rw [hk] at hread
    exact .inl ⟨hlt, k, hread, hnearest⟩
  · have hsign : decide (Binary64.signed negative (decimalValue digits) < 0) = negative := by
      have hpos := (Binary64.two_pow_le_tieBelow 970).trans hge
      cases negative with
      | true =>
          apply decide_eq_true
          rw [Binary64.signed, if_pos rfl]
          omega
      | false =>
          apply decide_eq_false
          rw [Binary64.signed, if_neg Bool.false_ne_true]
          omega
    rw [Binary64.ofDecimal_of_overflow_le negative hge] at hread
    rw [hsign]
    exact .inr ⟨hge, hread⟩

/-- **Integers are typed by way of double-precision numbers.** A text of an optional sign and ASCII
digits, of any length, is typed, and coerced for every spelling of an operator that compares by order,
to one and the same value. This is the integer that the text denotes exactly when the integer is a
double-precision number; otherwise it is the nearest one, or infinite from the overflow on. -/
theorem typed_integer_iff {s : String} {n : Int} (h : Denotes s n) :
    ∃ v, (Value.text s).typed = .ok v ∧
      (∀ spelling, Operator.isNumericSpelling spelling = true →
        (Value.text s).coerce spelling = .ok v) ∧
      (v = .int n ↔ Binary64.Representable n) ∧
      (n.natAbs < Binary64.overflow → ∃ k, v = .int k ∧ Binary64.Nearest n k) ∧
      (Binary64.overflow ≤ n.natAbs → v = .float (.infinity (n < 0))) := by
  obtain ⟨hnumeric, -⟩ := readNumber_of_denotes h
  have htyped : (Value.text s).typed = readNumber s := by
    rw [Value.typed, typedText_of_isNumeric hnumeric]
  have hcoerced : ∀ spelling, Operator.isNumericSpelling spelling = true →
      (Value.text s).coerce spelling = readNumber s := by
    intro spelling hspelling
    have hreads : (Value.text s).readsAsNumber spelling = true := by
      rw [Value.readsAsNumber, hspelling]
      exact hnumeric
    rw [Value.coerce, if_pos hreads]
  rcases readNumber_integer h with ⟨hlt, k, hread, hnearest⟩ | ⟨hge, hread⟩
  · rw [hread] at htyped hcoerced
    refine ⟨.int k, htyped, hcoerced, ⟨fun hk => ?_, fun hn => ?_⟩, fun _ => ⟨k, rfl, hnearest⟩,
      fun hge => absurd hlt (Nat.not_lt.mpr hge)⟩
    · obtain rfl := Value.int.inj hk
      exact hnearest.1
    · rw [hnearest.eq_of_representable hn]
  · rw [hread] at htyped hcoerced
    refine ⟨_, htyped, hcoerced, iff_of_false (by simp) fun hn => ?_,
      fun hlt => absurd hlt (Nat.not_lt.mpr hge), fun _ => rfl⟩
    exact absurd hn.lt_overflow (Nat.not_lt.mpr hge)

/-- An even integer beyond `2 ^ 53`, with a sign, is typed as it is. -/
theorem evenInteger_typed :
    Denotes "-9007199254740994" (-9007199254740994) ∧
      Binary64.Representable (-9007199254740994) ∧
      (Value.text "-9007199254740994").typed = .ok (.int (-9007199254740994)) := by
  have hdenotes : Denotes "-9007199254740994" (-9007199254740994) :=
    @Denotes.minus "9007199254740994".toList ⟨by decide, List.all_eq_true.mp rfl⟩
  have hrepresentable : Binary64.Representable (-9007199254740994) :=
    ⟨4503599627370497, 1, by decide, by decide, rfl⟩
  obtain ⟨v, htyped, -, hexact, -⟩ := typed_integer_iff hdenotes
  rw [hexact.mpr hrepresentable] at htyped
  exact ⟨hdenotes, hrepresentable, htyped⟩

/-- An odd one is typed, and coerced, as its neighbour. -/
theorem oddInteger_changed :
    Denotes "9007199254740993" 9007199254740993 ∧
      (Value.text "9007199254740993").typed = .ok (.int 9007199254740992) ∧
      (Value.text "9007199254740993").coerce "gt" = .ok (.int 9007199254740992) :=
  ⟨@Denotes.plain "9007199254740993".toList ⟨by decide, List.all_eq_true.mp rfl⟩, rfl, rfl⟩

end RecordQuery
