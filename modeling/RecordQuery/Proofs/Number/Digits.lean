import RecordQuery.Proofs.Number.Padding
/-!
# Numerals of digits only

A row of digits is read as an integer unless one of its digits is ornamental or there are too many of
them (`readInteger?_eq_none_iff`). No digit of any kind is a blank, so there is nothing to cut off; a
sign and an underscore are no digits either.
-/

namespace RecordQuery

open Text

/-! ## Digits are no blanks -/

namespace Text

/-- A character in ranges that lie apart from others is in none of the others. -/
theorem CodeRanges.not_holds_of_apart {ranges others : CodeRanges}
    (h : ∀ range ∈ ranges, ∀ other ∈ others, range.2 < other.1 ∨ other.2 < range.1) {c : Char}
    (hc : ranges.holds c = true) : others.holds c = false := by
  obtain ⟨range, hrange, hlow, hhigh⟩ := (CodeRanges.holds_iff ranges c).mp hc
  apply Bool.eq_false_iff.mpr
  intro hother
  obtain ⟨other, hmem, hlow', hhigh'⟩ := (CodeRanges.holds_iff others c).mp hother
  rcases h range hrange other hmem with hapart | hapart
  · omega
  · omega

/-- The decimal digits of each script, and the ornamental ones. -/
def Digit.ranges : CodeRanges :=
  zeros.map (fun base => (base, base + 9)) ++ ornamentalRanges

theorem Digit.holds_ranges {c : Char} (h : isDigitLike c = true) : ranges.holds c = true := by
  rw [isDigitLike, Bool.or_eq_true] at h
  rw [ranges, CodeRanges.holds_iff]
  rcases h with hdecimal | hornamental
  · obtain ⟨d, hd⟩ := Option.isSome_iff_exists.mp hdecimal
    obtain ⟨base, hfind, -⟩ := Option.map_eq_some_iff.mp hd
    have hbounds := List.find?_some hfind
    simp only [Bool.and_eq_true, decide_eq_true_eq] at hbounds
    refine ⟨(base, base + 9), ?_, hbounds.1, Nat.le_of_lt_succ hbounds.2⟩
    exact List.mem_append_left _ (List.mem_map_of_mem (List.mem_of_find?_eq_some hfind))
  · obtain ⟨range, hrange, hin⟩ := (CodeRanges.holds_iff ornamentalRanges c).mp hornamental
    exact ⟨range, List.mem_append_right _ hrange, hin⟩

/-- No digit of any kind can be cut off as padding. -/
theorem Digit.not_isPadding {c : Char} (h : isDigitLike c = true) : isPadding c = false := by
  have hblank : blankRanges.holds c = false :=
    CodeRanges.not_holds_of_apart (by decide +kernel) (holds_ranges h)
  rw [isPadding, isBlank, hblank]
  rfl

end Text

/-! ## Rows of digits -/

namespace Numeral

/-- Digits are taken to the end exactly when all of them are decimal. -/
theorem takeDigits_eq_nil_iff {cs : List Char} :
    (takeDigits cs).2 = [] ↔ ∀ c ∈ cs, Digit.isDecimal c = true := by
  induction cs with
  | nil => simp [takeDigits]
  | cons d ds ih =>
      rw [takeDigits, List.forall_mem_cons, ← ih, Digit.isDecimal]
      cases Digit.value? d with
      | none => simp
      | some digit => simp

/-- Each digit that is taken has a value. -/
theorem length_takeDigits {cs : List Char} (h : (takeDigits cs).2 = []) :
    (takeDigits cs).1.length = cs.length := by
  induction cs with
  | nil => rfl
  | cons d ds ih =>
      rw [takeDigits] at h ⊢
      cases hd : Digit.value? d with
      | none =>
          rw [hd] at h
          exact absurd h (by simp)
      | some digit =>
          rw [hd] at h
          rw [List.length_cons, ← ih h]
          rfl

end Numeral

/-- From a row of digits nothing is cut off before its digits are taken: no padding, no sign and no
underscore. -/
theorem readInteger?_of_digits {s : String}
    (hdigits : ∀ c ∈ s.toList, Digit.isDigitLike c = true) :
    readInteger? s = match Numeral.takeDigits s.toList with
      | (digit :: digits, []) =>
        if maxIntegerDigits < (digit :: digits).length then none
        else some (↑(Digit.toNat (digit :: digits)) : Int)
      | _ => none := by
  have hplain : ∀ mark, Digit.isDigitLike mark = false → mark ∉ s.toList := by
    intro mark hmark hmem
    rw [hdigits mark hmem] at hmark
    exact absurd hmark (by simp)
  have htrim : trimBy isPadding s.toList = s.toList :=
    trimBy_of_forall_not fun c hc => Digit.not_isPadding (hdigits c hc)
  have hsign : Numeral.takeSign s.toList = (false, s.toList) := by
    unfold Numeral.takeSign
    split
    · next heq => exact absurd (heq ▸ List.mem_cons_self) (hplain '-' (by decide +kernel))
    · next heq => exact absurd (heq ▸ List.mem_cons_self) (hplain '+' (by decide +kernel))
    · rfl
  have hjoin := joinDigits?_of_not_mem (hplain '_' (by decide +kernel)) ' '
  unfold readInteger?
  rw [htrim, hsign]
  dsimp only
  rw [hjoin]
  rfl

/-- A row of digits is no integer exactly when a digit of it has no decimal value or there are too many
of them. -/
theorem readInteger?_eq_none_iff {s : String} (hne : s ≠ "")
    (hdigits : ∀ c ∈ s.toList, Digit.isDigitLike c = true) :
    readInteger? s = none ↔
      (∃ c ∈ s.toList, Digit.isDecimal c = false) ∨ maxIntegerDigits < s.toList.length := by
  have hchars : s.toList ≠ [] := by simpa using hne
  rw [readInteger?_of_digits hdigits]
  by_cases hall : ∀ c ∈ s.toList, Digit.isDecimal c = true
  · have hrest := Numeral.takeDigits_eq_nil_iff.mpr hall
    have hlength := Numeral.length_takeDigits hrest
    have hdecimal : ¬∃ c ∈ s.toList, Digit.isDecimal c = false := by
      rintro ⟨c, hc, hnone⟩
      rw [hall c hc] at hnone
      exact absurd hnone (by simp)
    match htake : Numeral.takeDigits s.toList with
    | ([], rest) =>
        rw [htake] at hlength
        exact absurd (List.eq_nil_of_length_eq_zero hlength.symm) hchars
    | (digit :: digits, rest) =>
        rw [htake] at hrest hlength
        obtain rfl : rest = [] := hrest
        dsimp only at hlength ⊢
        rw [hlength, or_iff_right hdecimal]
        by_cases hlong : maxIntegerDigits < s.toList.length
        · rw [if_pos hlong]
          exact iff_of_true rfl hlong
        · rw [if_neg hlong]
          exact iff_of_false (by simp) hlong
  · have hrest := mt Numeral.takeDigits_eq_nil_iff.mp hall
    refine iff_of_true ?_ (.inl ?_)
    · match htake : Numeral.takeDigits s.toList with
      | (digits, []) => exact absurd (by rw [htake]) hrest
      | ([], c :: rest) => rfl
      | (digit :: digits, c :: rest) => rfl
    · simpa using hall

end RecordQuery
