import Mathlib.Tactic.IntervalCases
import RecordQuery.Proofs.Text.Trimming
import RecordQuery.Value.Coercion
/-!
# Padding around numerals

A text counts as a numeral when it is one after all blanks around it have been cut off, but a number
is only read from it when the blanks are padding. The information separators are blanks and no
padding, and `exists_readNumber_iff` says that they are the only difference: a text that counts as a
numeral is read exactly when cutting off its padding cuts off all its blanks.
-/

namespace RecordQuery

/-! ## The characters of numerals -/

namespace Numeral

open Text

/-- The character can stand in a numeral. -/
def isPart (c : Char) : Bool :=
  Digit.isDecimal c || c == '+' || c == '-' || c == '.' || c == 'e' || c == 'E'

theorem part_or_mem_takeSign {cs : List Char} {c : Char} (hc : c ∈ cs) :
    isPart c = true ∨ c ∈ (takeSign cs).2 := by
  unfold takeSign
  split
  · rcases List.mem_cons.mp hc with rfl | hc
    · left; decide
    · exact .inr hc
  · rcases List.mem_cons.mp hc with rfl | hc
    · left; decide
    · exact .inr hc
  · exact .inr hc

theorem part_or_mem_takeDigits {cs : List Char} {c : Char} (hc : c ∈ cs) :
    isPart c = true ∨ c ∈ (takeDigits cs).2 := by
  induction cs with
  | nil => exact absurd hc List.not_mem_nil
  | cons d ds ih =>
      rw [takeDigits]
      cases hd : Digit.value? d with
      | none => exact .inr hc
      | some digit =>
          rcases List.mem_cons.mp hc with rfl | hc
          · left
            simp [isPart, Digit.isDecimal, hd]
          · exact ih hc

theorem part_or_mem_takeFraction {cs : List Char} {c : Char} (hc : c ∈ cs) :
    isPart c = true ∨ c ∈ (takeFraction cs).2.2 := by
  unfold takeFraction
  split
  · rcases List.mem_cons.mp hc with rfl | hc
    · left; decide
    · exact part_or_mem_takeDigits hc
  · exact .inr hc

theorem part_of_readExponent? {cs : List Char} {exponent : Bool × Int}
    (h : readExponent? cs = some exponent) {c : Char} (hc : c ∈ cs) : isPart c = true := by
  cases cs with
  | nil => exact absurd hc List.not_mem_nil
  | cons d ds =>
      rw [readExponent?] at h
      by_cases hd : d = 'e' ∨ d = 'E'
      · rw [if_pos hd] at h
        rcases List.mem_cons.mp hc with rfl | hc
        · rcases hd with rfl | rfl <;> decide
        · rcases part_or_mem_takeSign hc with hpart | hc
          · exact hpart
          · rcases part_or_mem_takeDigits hc with hpart | hc
            · exact hpart
            · -- nothing may follow the digits of the exponent
              revert h
              dsimp only
              split
              · rename_i hdigits
                rw [hdigits] at hc
                exact absurd hc List.not_mem_nil
              · exact fun h => absurd h (by simp)
      · rw [if_neg hd] at h
        exact absurd h (by simp)

/-- A numeral has no other characters. -/
theorem part_of_read? {cs : List Char} {n : Numeral} (h : read? cs = some n) {c : Char}
    (hc : c ∈ cs) : isPart c = true := by
  unfold read? at h
  dsimp only at h
  split at h
  · exact absurd h (by simp)
  · rcases part_or_mem_takeSign hc with hpart | hc
    · exact hpart
    rcases part_or_mem_takeDigits hc with hpart | hc
    · exact hpart
    rcases part_or_mem_takeFraction hc with hpart | hc
    · exact hpart
    split at h
    · rename_i hexponent
      exact part_of_readExponent? hexponent hc
    · exact absurd h (by simp)

end Numeral

/-! ## Underscores -/

/-- Without underscores there is nothing to join. -/
theorem joinDigits?_of_not_mem {cs : List Char} (h : '_' ∉ cs) (previous : Char) :
    joinDigits? previous cs = some cs := by
  fun_induction joinDigits? previous cs with
  | case1 => rfl
  | case2 => exact absurd List.mem_cons_self h
  | case3 => exact absurd List.mem_cons_self h
  | case4 => exact absurd List.mem_cons_self h
  | case5 previous c cs _ _ ih =>
      rw [ih fun hmem => h (List.mem_cons_of_mem _ hmem)]
      rfl

/-- Joining drops nothing but underscores. -/
theorem mem_of_joinDigits? {cs joined : List Char} {previous : Char}
    (h : joinDigits? previous cs = some joined) {c : Char} (hc : c ∈ cs) (hne : c ≠ '_') :
    c ∈ joined := by
  fun_induction joinDigits? previous cs generalizing joined with
  | case1 => exact absurd hc List.not_mem_nil
  | case2 previous d cs hdecimal ih =>
      obtain ⟨later, hlater, rfl⟩ := Option.map_eq_some_iff.mp h
      rcases List.mem_cons.mp hc with rfl | hc
      · exact absurd rfl hne
      rcases List.mem_cons.mp hc with rfl | hc
      · exact List.mem_cons_self
      · exact List.mem_cons_of_mem _ (ih hlater hc)
  | case3 => exact absurd h (by simp)
  | case4 => exact absurd h (by simp)
  | case5 previous d cs _ _ ih =>
      obtain ⟨later, hlater, rfl⟩ := Option.map_eq_some_iff.mp h
      rcases List.mem_cons.mp hc with rfl | hc
      · exact List.mem_cons_self
      · exact List.mem_cons_of_mem _ (ih hlater hc)

/-! ## Information separators -/

namespace Text

/-- There are four information separators. -/
theorem isInformationSeparator_iff {c : Char} :
    isInformationSeparator c = true ↔ c = '\x1c' ∨ c = '\x1d' ∨ c = '\x1e' ∨ c = '\x1f' := by
  constructor
  · intro h
    rw [isInformationSeparator, Bool.and_eq_true, decide_eq_true_eq, decide_eq_true_eq] at h
    obtain ⟨hlow, hhigh⟩ := h
    have hchar : Char.ofNat c.toNat = c := Char.ofNat_toNat c
    generalize c.toNat = n at hlow hhigh hchar
    subst hchar
    interval_cases n <;> decide
  · rintro (rfl | rfl | rfl | rfl) <;> rfl

/-- An information separator stands in no numeral. -/
theorem not_part_of_separator {c : Char} (h : isInformationSeparator c = true) :
    Numeral.isPart c = false := by
  rcases isInformationSeparator_iff.mp h with rfl | rfl | rfl | rfl <;> rfl

theorem toLower_of_separator {c : Char} (h : isInformationSeparator c = true) : c.toLower = c := by
  rcases isInformationSeparator_iff.mp h with rfl | rfl | rfl | rfl <;> rfl

/-- A text with a character that is in lower case none of the word is another word. -/
theorem not_isWord_of_mem {word : String} {cs : List Char} {c : Char} (hc : c ∈ cs)
    (h : c.toLower ∉ word.toList) : isWord word cs = false := by
  apply Bool.eq_false_iff.mpr
  intro his
  have hmem : c.toLower ∈ cs.map Char.toLower := List.mem_map_of_mem hc
  rw [beq_iff_eq.mp his] at hmem
  exact h hmem

/-- A text with an information separator is no word of letters. -/
theorem not_isWord_of_separator (word : String)
    (hword : word.toList.any isInformationSeparator = false) {cs : List Char} {c : Char}
    (hc : c ∈ cs) (h : isInformationSeparator c = true) : isWord word cs = false := by
  refine not_isWord_of_mem hc fun hmem => ?_
  rw [toLower_of_separator h] at hmem
  have hany : word.toList.any isInformationSeparator = true := List.any_eq_true.mpr ⟨c, hmem, h⟩
  exact absurd hword (by simp [hany])

end Text

open Text

/-- A number is read only from a text in which no information separator is left when its padding has
been cut off. -/
theorem Binary64.not_separator_of_ofText? {s : String} {x : Binary64} (h : ofText? s = some x)
    {c : Char} (hc : c ∈ trimBy isPadding s.toList) : isInformationSeparator c = false := by
  apply Bool.eq_false_iff.mpr
  intro hsep
  have hword : c ∈ (Numeral.takeSign (trimBy isPadding s.toList)).2 := by
    rcases Numeral.part_or_mem_takeSign hc with hpart | hmem
    · rw [not_part_of_separator hsep] at hpart
      exact absurd hpart (by simp)
    · exact hmem
  have hinf := not_isWord_of_separator "inf" rfl hword hsep
  have hinfinity := not_isWord_of_separator "infinity" rfl hword hsep
  have hnan := not_isWord_of_separator "nan" rfl hword hsep
  unfold ofText? at h
  simp only [hinf, hinfinity, hnan, Bool.or_self, Bool.false_eq_true, if_false] at h
  obtain ⟨joined, hjoined, h⟩ := Option.bind_eq_some_iff.mp h
  obtain ⟨numeral, hnumeral, -⟩ := Option.bind_eq_some_iff.mp h
  have hunderscore : c ≠ '_' := by
    rintro rfl
    exact absurd hsep (by decide)
  have hpart := Numeral.part_of_read? hnumeral (mem_of_joinDigits? hjoined hc hunderscore)
  rw [not_part_of_separator hsep] at hpart
  exact absurd hpart (by simp)

/-- A numeral is read as a number. -/
theorem Binary64.exists_ofText? {s : String} {n : Numeral}
    (h : Numeral.read? (trimBy isPadding s.toList) = some n) : ∃ x, ofText? s = some x := by
  have hjoined : joinDigits? ' ' (trimBy isPadding s.toList) = some (trimBy isPadding s.toList) := by
    apply joinDigits?_of_not_mem
    intro hmem
    exact absurd (Numeral.part_of_read? h hmem) (by decide)
  unfold ofText?
  dsimp only
  split_ifs
  · exact ⟨_, rfl⟩
  · exact ⟨_, rfl⟩
  · rw [hjoined]
    exact ⟨n.toBinary64, by simp [h]⟩

/-- A text that counts as a numeral is read as a number exactly when all blanks around it are
padding. -/
theorem exists_readNumber_iff {s : String} (hs : isNumeric s = true) :
    (∃ v, readNumber s = .ok v) ↔ trimBy isBlank s.toList = trimBy isPadding s.toList := by
  obtain ⟨n, hn⟩ := Option.isSome_iff_exists.mp hs
  constructor
  · rintro ⟨v, hv⟩
    cases hx : Binary64.ofText? s with
    | none =>
        rw [readNumber, hx] at hv
        exact absurd hv (by simp)
    | some x =>
        apply trimBy_eq_of_forall fun c hc => isBlank_of_isPadding hc
        intro c hc hblank
        rw [isPadding, hblank, Binary64.not_separator_of_ofText? hx hc]
        rfl
  · intro htrim
    obtain ⟨x, hx⟩ := Binary64.exists_ofText? (htrim ▸ hn)
    rw [readNumber, hx, hn]
    dsimp only
    split <;> exact ⟨_, rfl⟩

end RecordQuery
