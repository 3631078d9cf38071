import RecordQuery.Proofs.Number.Digits
import RecordQuery.Proofs.Number.Rounding
/-!
# Which texts are integers

A text is read as an integer when it is a row of digits with a sign or none, and with padding around it
(`readInteger?_eq_some_iff`). The digits may be of any script, single underscores may stand between
two of them, and there is a limit on their number. `DigitRow` and `Spells` say this without a reader.
-/

namespace RecordQuery

open Text

/-! ## Rows of digits -/

/-- The characters are a row of digits with these values, in which single underscores may stand between
two digits. -/
inductive DigitRow : (row : List Char) → (digits : List Nat) → Prop
  | single {c : Char} {d : Nat} : Digit.value? c = some d → DigitRow [c] [d]
  | digit {c : Char} {d : Nat} {row : List Char} {digits : List Nat} :
      Digit.value? c = some d → DigitRow row digits → DigitRow (c :: row) (d :: digits)
  | underscore {c : Char} {d : Nat} {row : List Char} {digits : List Nat} :
      Digit.value? c = some d → DigitRow row digits → DigitRow (c :: '_' :: row) (d :: digits)

theorem Text.Digit.ne_underscore {c : Char} {d : Nat} (h : Digit.value? c = some d) : c ≠ '_' := by
  rintro rfl
  have hnone : Digit.value? '_' = none := by decide +kernel
  exact absurd h (by simp [hnone])

theorem Text.Digit.isDecimal_of_value? {c : Char} {d : Nat} (h : Digit.value? c = some d) :
    Digit.isDecimal c = true := by
  rw [Digit.isDecimal, h]
  rfl

theorem joinDigits?_cons {c : Char} (hc : c ≠ '_') (previous : Char) (cs : List Char) :
    joinDigits? previous (c :: cs) = (joinDigits? c cs).map (c :: ·) := by
  rw [joinDigits?.eq_def]
  split
  · next heq => exact absurd heq (by simp)
  · next heq => exact absurd (List.cons.inj heq).1 hc
  · next heq =>
      obtain ⟨rfl, rfl⟩ := List.cons.inj heq
      rw [if_neg hc]

theorem joinDigits?_underscore {previous c : Char} (hprevious : Digit.isDecimal previous = true)
    (hc : Digit.isDecimal c = true) (cs : List Char) :
    joinDigits? previous ('_' :: c :: cs) = (joinDigits? c cs).map (c :: ·) := by
  rw [joinDigits?, hprevious, hc]
  rfl

theorem Numeral.takeDigits_cons {c : Char} {d : Nat} (h : Digit.value? c = some d)
    {cs : List Char} {digits : List Nat} (hcs : takeDigits cs = (digits, [])) :
    takeDigits (c :: cs) = (d :: digits, []) := by
  rw [takeDigits, h, hcs]
  rfl

namespace DigitRow

variable {row : List Char} {digits : List Nat}

/-- A row begins with a digit. -/
theorem exists_head (h : DigitRow row digits) :
    ∃ c rest, row = c :: rest ∧ Digit.isDecimal c = true := by
  cases h with
  | single hc => exact ⟨_, _, rfl, Digit.isDecimal_of_value? hc⟩
  | digit hc => exact ⟨_, _, rfl, Digit.isDecimal_of_value? hc⟩
  | underscore hc => exact ⟨_, _, rfl, Digit.isDecimal_of_value? hc⟩

theorem ne_nil (h : DigitRow row digits) : digits ≠ [] := by
  cases h with
  | single | digit | underscore => exact List.cons_ne_nil _ _

/-- In a row nothing is padding. -/
theorem not_isPadding (h : DigitRow row digits) : ∀ c ∈ row, isPadding c = false := by
  have hdigit : ∀ {c : Char} {d : Nat}, Digit.value? c = some d → isPadding c = false :=
    fun hc => Digit.not_isPadding (by rw [Digit.isDigitLike, Digit.isDecimal_of_value? hc]; rfl)
  induction h with
  | single hc => simpa using hdigit hc
  | digit hc _ ih => exact List.forall_mem_cons.mpr ⟨hdigit hc, ih⟩
  | underscore hc _ ih =>
      exact List.forall_mem_cons.mpr ⟨hdigit hc, List.forall_mem_cons.mpr ⟨by decide, ih⟩⟩

/-- A row is joined, whatever stands before it, and its digits are taken. -/
theorem taken (h : DigitRow row digits) (previous : Char) :
    ∃ joined, joinDigits? previous row = some joined ∧ Numeral.takeDigits joined = (digits, []) := by
  induction h generalizing previous with
  | @single c d hc =>
      refine ⟨[c], ?_, Numeral.takeDigits_cons hc rfl⟩
      rw [joinDigits?_cons (Digit.ne_underscore hc)]
      rfl
  | @digit c d row digits hc _ ih =>
      obtain ⟨joined, hjoin, htake⟩ := ih c
      refine ⟨c :: joined, ?_, Numeral.takeDigits_cons hc htake⟩
      rw [joinDigits?_cons (Digit.ne_underscore hc), hjoin]
      rfl
  | @underscore c d row digits hc hrow ih =>
      obtain ⟨first, rest, rfl, hfirst⟩ := hrow.exists_head
      obtain ⟨joined, hjoin, htake⟩ := ih c
      have hne : first ≠ '_' := by
        rintro rfl
        exact absurd hfirst (by decide +kernel)
      refine ⟨c :: joined, ?_, Numeral.takeDigits_cons hc htake⟩
      rw [joinDigits?_cons (Digit.ne_underscore hc),
        joinDigits?_underscore (Digit.isDecimal_of_value? hc) hfirst, ← joinDigits?_cons hne c, hjoin]
      rfl

end DigitRow

/-- What may follow a digit: nothing, more digits, or an underscore and more digits. -/
inductive RowAfter (previous : Char) : List Char → List Nat → Prop
  | nothing : RowAfter previous [] []
  | row {row : List Char} {digits : List Nat} : DigitRow row digits → RowAfter previous row digits
  | underscore {row : List Char} {digits : List Nat} : Digit.isDecimal previous = true →
      DigitRow row digits → RowAfter previous ('_' :: row) digits

theorem RowAfter.digitRow {c : Char} {d : Nat} (hc : Digit.value? c = some d) {row : List Char}
    {digits : List Nat} (h : RowAfter c row digits) : DigitRow (c :: row) (d :: digits) := by
  cases h with
  | nothing => exact .single hc
  | row hrow => exact .digit hc hrow
  | underscore _ hrow => exact .underscore hc hrow

/-- Characters that are joined to digits only are what may follow a digit. -/
theorem rowAfter_of_taken {previous : Char} {row joined : List Char} {digits : List Nat}
    (hjoin : joinDigits? previous row = some joined)
    (htake : Numeral.takeDigits joined = (digits, [])) : RowAfter previous row digits := by
  -- a character that is joined to the others is a digit, and the others follow it
  have hfirst : ∀ {c : Char} {cs : List Char} {digits : List Nat},
      (∀ {joined digits}, joinDigits? c cs = some joined →
        Numeral.takeDigits joined = (digits, []) → RowAfter c cs digits) →
      ∀ {joined}, (joinDigits? c cs).map (c :: ·) = some joined →
        Numeral.takeDigits joined = (digits, []) → DigitRow (c :: cs) digits := by
    intro c cs digits ih joined hjoin htake
    obtain ⟨later, hlater, rfl⟩ := Option.map_eq_some_iff.mp hjoin
    rw [Numeral.takeDigits] at htake
    cases hc : Digit.value? c with
    | none =>
        rw [hc] at htake
        exact absurd htake (by simp)
    | some d =>
        rw [hc] at htake
        obtain ⟨rfl, hrest⟩ := Prod.mk.inj htake
        exact (ih hlater (Prod.ext rfl hrest)).digitRow hc
  fun_induction joinDigits? previous row generalizing joined digits with
  | case1 =>
      obtain rfl := Option.some.inj hjoin
      obtain rfl := (Prod.mk.inj htake).1
      exact .nothing
  | case2 previous c cs hdecimal ih =>
      exact .underscore (Bool.and_eq_true_iff.mp hdecimal).1 (hfirst ih hjoin htake)
  | case3 => exact absurd hjoin (by simp)
  | case4 => exact absurd hjoin (by simp)
  | case5 previous c cs _ _ ih => exact .row (hfirst ih hjoin htake)

/-- A text is joined to digits exactly when it is a row of them. -/
theorem digitRow_iff {row : List Char} {digits : List Nat} :
    DigitRow row digits ↔ digits ≠ [] ∧
      ∃ joined, joinDigits? ' ' row = some joined ∧ Numeral.takeDigits joined = (digits, []) := by
  constructor
  · intro h
    exact ⟨h.ne_nil, h.taken ' '⟩
  · rintro ⟨hne, joined, hjoin, htake⟩
    cases rowAfter_of_taken hjoin htake with
    | nothing => exact absurd rfl hne
    | row hrow => exact hrow
    | underscore hblank => exact absurd hblank (by decide +kernel)

/-! ## Signs and padding -/

/-- The characters are a sign or none; the flag tells whether it is a negative one. -/
inductive SignText : (sign : List Char) → (negative : Bool) → Prop
  | none : SignText [] false
  | plus : SignText ['+'] false
  | minus : SignText ['-'] true

theorem exists_signText (cs : List Char) :
    ∃ sign, SignText sign (Numeral.takeSign cs).1 ∧ cs = sign ++ (Numeral.takeSign cs).2 := by
  unfold Numeral.takeSign
  split
  · exact ⟨_, .minus, rfl⟩
  · exact ⟨_, .plus, rfl⟩
  · exact ⟨_, .none, rfl⟩

theorem SignText.takeSign {sign : List Char} {negative : Bool} (h : SignText sign negative)
    {row : List Char} {digits : List Nat} (hrow : DigitRow row digits) :
    Numeral.takeSign (sign ++ row) = (negative, row) := by
  cases h with
  | plus => rfl
  | minus => rfl
  | none =>
      obtain ⟨c, rest, rfl, hc⟩ := hrow.exists_head
      unfold Numeral.takeSign
      split
      · next heq =>
          obtain ⟨rfl, -⟩ := List.cons.inj heq
          exact absurd hc (by decide +kernel)
      · next heq =>
          obtain ⟨rfl, -⟩ := List.cons.inj heq
          exact absurd hc (by decide +kernel)
      · rfl

theorem SignText.not_isPadding {sign : List Char} {negative : Bool} (h : SignText sign negative) :
    ∀ c ∈ sign, isPadding c = false := by
  cases h with
  | none => exact List.forall_mem_nil _
  | plus | minus => exact List.forall_mem_singleton.mpr (by decide)

/-- The text spells the integer: between paddings it is a sign or none and a row of no more digits than
an integer may have. -/
inductive Spells : String → Int → Prop
  | intro {s : String} {before sign row after : List Char} {negative : Bool} {digits : List Nat} :
      s.toList = before ++ (sign ++ row) ++ after → (∀ c ∈ before, isPadding c = true) →
      (∀ c ∈ after, isPadding c = true) → SignText sign negative → DigitRow row digits →
      digits.length ≤ maxIntegerDigits →
      Spells s (Binary64.signed negative (Digit.toNat digits))

/-- Reading an integer goes through the characters between the paddings. -/
theorem readInteger?_eq_some_iff_row {s : String} {n : Int} {negative : Bool} {row : List Char}
    (hsign : Numeral.takeSign (trimBy isPadding s.toList) = (negative, row)) :
    readInteger? s = some n ↔ ∃ digits, DigitRow row digits ∧ digits.length ≤ maxIntegerDigits ∧
      n = Binary64.signed negative (Digit.toNat digits) := by
  unfold readInteger?
  rw [hsign]
  simp only [digitRow_iff]
  cases hjoin : joinDigits? ' ' row with
  | none => simp
  | some joined =>
      match htake : Numeral.takeDigits joined with
      | ([], rest) => simp [htake]
      | (digit :: digits, c :: rest) => simp [htake]
      | (digit :: digits, []) => simp [htake, Binary64.signed, eq_comm]

/-- **Which texts are integers.** A text is read as an integer exactly when it spells it. -/
theorem readInteger?_eq_some_iff {s : String} {n : Int} : readInteger? s = some n ↔ Spells s n := by
  constructor
  · intro h
    obtain ⟨sign, hsign, hcore⟩ := exists_signText (trimBy isPadding s.toList)
    obtain ⟨digits, hrow, hlength, rfl⟩ := (readInteger?_eq_some_iff_row rfl).mp h
    obtain ⟨before, after, htext, hbefore, hafter⟩ := (trimsTo_trimBy isPadding s.toList).around
    rw [hcore] at htext
    exact .intro htext hbefore hafter hsign hrow hlength
  · rintro ⟨htext, hbefore, hafter, hsign, hrow, hlength⟩
    have hkept : ∀ c ∈ _ ++ _, isPadding c = false := fun c hc =>
      (List.mem_append.mp hc).elim (hsign.not_isPadding c) (hrow.not_isPadding c)
    have htrim := trimBy_eq_iff.mpr ⟨⟨_, _, htext, hbefore, hafter⟩,
      fun c hc => hkept c (List.mem_of_mem_head? hc), fun c hc => hkept c (List.mem_of_mem_getLast? hc)⟩
    refine (readInteger?_eq_some_iff_row ?_).mpr ⟨_, hrow, hlength, rfl⟩
    rw [htrim]
    exact hsign.takeSign hrow

end RecordQuery
