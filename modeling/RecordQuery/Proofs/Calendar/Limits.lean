import RecordQuery.Calendar.Reading
import RecordQuery.Proofs.Outcome
/-!
# Moments outside the calendar

A clock reading at an offset from universal time is moved to universal time, which may lead to the day
before or after. Only on the first and on the last day of the calendar there is no such day, and
`ofText?_eq_error_iff` says that this is the only way in which reading a moment can fail rather than
find none.
-/

namespace RecordQuery

/-! ## The ends of the calendar -/

namespace Date

/-- The first day of the calendar. -/
def first : Date := ⟨1, 1, 1⟩

/-- The last day of the calendar. -/
def last : Date := ⟨lastYear, 12, 31⟩

/-- There is a day before every date but the first. -/
theorem previous?_eq_none_iff {d : Date} (hd : d.Valid) : d.previous? = none ↔ d = first := by
  obtain ⟨year, month, day⟩ := d
  obtain ⟨hyear, -, hmonth, -, hday, -⟩ := hd
  dsimp only at hyear hmonth hday
  simp only [previous?, first, mk.injEq]
  split_ifs with hbefore hmonths hyears
  · exact iff_of_false (by simp) fun h => by omega
  · exact iff_of_false (by simp) fun h => by omega
  · exact iff_of_false (by simp) fun h => by omega
  · exact iff_of_true rfl ⟨by omega, by omega, by omega⟩

/-- There is a day after every date but the last. -/
theorem next?_eq_none_iff {d : Date} (hd : d.Valid) : d.next? = none ↔ d = last := by
  obtain ⟨year, month, day⟩ := d
  obtain ⟨-, hyear, -, hmonth, -, hday⟩ := hd
  dsimp only at hyear hmonth hday
  have hdecember : daysIn year 12 = 31 := rfl
  simp only [next?, last, mk.injEq]
  split_ifs with hbehind hmonths hyears
  · refine iff_of_false (by simp) ?_
    rintro ⟨-, rfl, hlast⟩
    omega
  · exact iff_of_false (by simp) fun h => by omega
  · exact iff_of_false (by simp) fun h => by omega
  · obtain rfl : month = 12 := by omega
    exact iff_of_true rfl ⟨by omega, rfl, by omega⟩

end Date

namespace Moment

/-! ## Universal time -/

/-- The minutes from the beginning of the day to a clock reading, counted in universal time. -/
def universalMinutes (t : Clock) (o : Offset) : Int :=
  ↑(60 * t.hour + t.minute) - o.minutes

/-- In universal time the clock reading belongs to a day before the first or after the last one. -/
def Outside (date : Date) (t : Clock) (o : Offset) : Prop :=
  date = .first ∧ universalMinutes t o < 0 ∨ date = .last ∧ minutesPerDay ≤ universalMinutes t o

theorem atOffset_eq_error_iff {date : Date} (hdate : date.Valid) {t : Clock} {o : Offset}
    {f : Fault} : atOffset date t o = .error f ↔ f = .outOfRange ∧ Outside date t o := by
  unfold atOffset Outside
  rw [← Date.previous?_eq_none_iff hdate, ← Date.next?_eq_none_iff hdate]
  unfold universalMinutes
  dsimp only
  generalize ((60 * t.hour + t.minute : Nat) : Int) - o.minutes = minutes
  have hday : ¬minutesPerDay < 0 := by decide
  split_ifs with hbefore hbehind
  · have hsmall : ¬minutesPerDay ≤ minutes := by omega
    cases date.previous? with
    | none => simp [hbefore, eq_comm]
    | some day => simp [hsmall]
  · cases date.next? with
    | none => simp [hbehind, eq_comm]
    | some day => simp [hbefore]
  · simp [hbefore, hbehind]

/-! ## Texts -/

/-- The text is that of a moment, but its universal time lies outside the calendar. -/
def LeavesCalendar (cs : List Char) : Prop :=
  ∃ date rest t o, takeDate? cs = some (date, rest) ∧ readTail? rest = some (.clockAt t o) ∧
    date.Valid ∧ t.isValid = true ∧ o.isValid = true ∧ Outside date t o

theorem ofParts?_eq_error_iff {date : Date} (hdate : date.Valid) {tail : Tail} {f : Fault} :
    ofParts? date tail = .error f ↔
      f = .outOfRange ∧ ∃ t o, tail = .clockAt t o ∧ t.isValid = true ∧ o.isValid = true ∧
        Outside date t o := by
  cases tail with
  | none => simp [ofParts?]
  | offset o => simp [ofParts?]
  | clock t => simp [ofParts?]
  | clockAt t o =>
      rw [ofParts?]
      by_cases hvalid : (t.isValid && o.isValid) = true
      · rw [if_pos hvalid, map_eq_error_iff, atOffset_eq_error_iff hdate]
        rw [Bool.and_eq_true] at hvalid
        refine and_congr_right fun _ => ⟨fun h => ⟨t, o, rfl, hvalid.1, hvalid.2, h⟩, ?_⟩
        rintro ⟨t', o', heq, -, -, h⟩
        obtain ⟨rfl, rfl⟩ := Tail.clockAt.inj heq
        exact h
      · rw [if_neg hvalid]
        refine iff_of_false (by simp) ?_
        rintro ⟨-, t', o', heq, ht, ho, -⟩
        obtain ⟨rfl, rfl⟩ := Tail.clockAt.inj heq
        exact hvalid (by rw [ht, ho]; rfl)

/-- Reading a moment fails exactly when the moment leaves the calendar. -/
theorem ofText?_eq_error_iff {cs : List Char} {f : Fault} :
    ofText? cs = .error f ↔ f = .outOfRange ∧ LeavesCalendar cs := by
  unfold ofText? LeavesCalendar
  cases hdate : takeDate? cs with
  | none => simp
  | some found =>
      obtain ⟨date, rest⟩ := found
      cases htail : readTail? rest with
      | none =>
          refine iff_of_false (by simp [htail]) ?_
          rintro ⟨-, date', rest', t, o, heq, htail', -⟩
          obtain ⟨rfl, rfl⟩ := Prod.mk.inj (Option.some.inj heq)
          rw [htail] at htail'
          exact absurd htail' (by simp)
      | some tail =>
          simp only [htail]
          by_cases hvalid : date.Valid
          · rw [if_pos hvalid, ofParts?_eq_error_iff hvalid]
            refine and_congr_right fun _ => ⟨?_, ?_⟩
            · rintro ⟨t, o, rfl, ht, ho, h⟩
              exact ⟨date, rest, t, o, rfl, htail, hvalid, ht, ho, h⟩
            · rintro ⟨date', rest', t, o, heq, htail', -, ht, ho, h⟩
              obtain ⟨rfl, rfl⟩ := Prod.mk.inj (Option.some.inj heq)
              exact ⟨t, o, Option.some.inj (htail.symm.trans htail'), ht, ho, h⟩
          · rw [if_neg hvalid]
            refine iff_of_false (by simp) ?_
            rintro ⟨-, date', rest', t, o, heq, -, hvalid', -⟩
            obtain ⟨rfl, rfl⟩ := Prod.mk.inj (Option.some.inj heq)
            exact hvalid hvalid'

/-! ## The characters of a date -/

/-- A number begins with as many digits as it has to have. -/
theorem digits_of_takeNumber? {count n m : Nat} {cs rest : List Char}
    (h : takeNumber? count n cs = some (m, rest)) :
    ∃ digits : List Char, cs = digits ++ rest ∧ digits.length = count ∧
      ∀ c ∈ digits, c.isDigit = true := by
  induction count generalizing n cs with
  | zero =>
      obtain ⟨-, rfl⟩ := Prod.mk.inj (Option.some.inj h)
      exact ⟨[], rfl, rfl, by simp⟩
  | succ count ih =>
      cases cs with
      | nil => exact absurd h (by simp [takeNumber?])
      | cons c cs =>
          rw [takeNumber?] at h
          by_cases hc : c.isDigit = true
          · rw [if_pos hc] at h
            obtain ⟨digits, rfl, rfl, hdigits⟩ := ih h
            exact ⟨c :: digits, rfl, rfl, List.forall_mem_cons.mpr ⟨hc, hdigits⟩⟩
          · rw [if_neg hc] at h
            exact absurd h (by simp)

/-- A date begins with digits and a hyphen. -/
theorem digits_of_takeDate? {cs rest : List Char} {date : Date}
    (h : takeDate? cs = some (date, rest)) :
    ∃ digits after : List Char, cs = digits ++ '-' :: after ∧ digits ≠ [] ∧
      ∀ c ∈ digits, c.isDigit = true := by
  unfold takeDate? at h
  obtain ⟨⟨year, afterYear⟩, hyear, h⟩ := Option.bind_eq_some_iff.mp h
  obtain ⟨afterHyphen, hhyphen, -⟩ := Option.bind_eq_some_iff.mp h
  obtain ⟨digits, rfl, hlength, hdigits⟩ := digits_of_takeNumber? hyear
  cases afterYear with
  | nil => exact absurd hhyphen (by simp [takeChar?])
  | cons c after =>
      obtain rfl : c = '-' := by
        by_contra hc
        rw [takeChar?, if_neg hc] at hhyphen
        exact absurd hhyphen (by simp)
      refine ⟨digits, after, rfl, ?_, hdigits⟩
      rintro rfl
      exact absurd hlength (by simp)

end Moment

end RecordQuery
