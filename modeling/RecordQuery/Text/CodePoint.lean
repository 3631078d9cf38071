/-!
# Code points

A text is a row of code points. Most of them are characters; the others are surrogates, the halves
of a pair, which an escape can write on its own. A `String` holds characters only, so a surrogate
is stored as two of them: a mark and a character that numbers the surrogate. The mark's own
character is stored twice. `codePoints_stored` says that nothing is lost on the way, so that two
texts are the same exactly when they are stored alike.

Character classes are given as ascending tables of inclusive code point ranges.
-/

namespace RecordQuery.Text

/-! ## Ranges -/

/-- Inclusive ranges of code points. -/
abbrev CodeRanges := List (Nat × Nat)

/-- Some range of the table holds the character. -/
def CodeRanges.holds (ranges : CodeRanges) (c : Char) : Bool :=
  ranges.any fun range => range.1 ≤ c.toNat && c.toNat ≤ range.2

/-- A character is in the class exactly when one of the ranges bounds its code point. -/
theorem CodeRanges.holds_iff (ranges : CodeRanges) (c : Char) :
    ranges.holds c = true ↔ ∃ range ∈ ranges, range.1 ≤ c.toNat ∧ c.toNat ≤ range.2 := by
  simp [CodeRanges.holds]

/-! ## Characters and surrogates -/

/-- The number of the first surrogate. -/
def firstSurrogate : Nat := 0xd800

/-- How many surrogates there are. -/
def surrogateCount : Nat := 2048

/-- A code point: a character, or a surrogate by its place among the surrogates. -/
inductive CodePoint
  | char (c : Char)
  | surrogate (place : Fin surrogateCount)
deriving DecidableEq

namespace CodePoint

/-- The number of a code point. -/
def number : CodePoint → Nat
  | char c => c.toNat
  | surrogate place => firstSurrogate + place

/-- The code point of a number. -/
def ofNumber (n : Nat) : CodePoint :=
  if h : firstSurrogate ≤ n ∧ n < firstSurrogate + surrogateCount then
    surrogate ⟨n - firstSurrogate, by omega⟩
  else char (Char.ofNat n)

end CodePoint

/-! ## The stored form -/

/-- The character that announces a surrogate: the last one, which no script uses. -/
def mark : Char := Char.ofNat 0x10ffff

/-- The number of the character that stands for the first surrogate behind a mark. -/
def firstNumeral : Nat := 0xe000

/-- The character that numbers a surrogate behind a mark. -/
def numeral (place : Fin surrogateCount) : Char :=
  Char.ofNat (firstNumeral + place)

/-- The place of the surrogate that a character numbers behind a mark. -/
def place? (c : Char) : Option (Fin surrogateCount) :=
  if h : firstNumeral ≤ c.toNat ∧ c.toNat < firstNumeral + surrogateCount then
    some ⟨c.toNat - firstNumeral, by omega⟩
  else none

/-- The characters that store a code point. -/
def CodePoint.stored : CodePoint → List Char
  | char c => if c = mark then [mark, mark] else [c]
  | surrogate place => [mark, numeral place]

/-- The code points that characters store. A mark that announces nothing stands for itself. -/
def codePoints : List Char → List CodePoint
  | [] => []
  | [c] => [.char c]
  | c :: d :: rest =>
    if c = mark then
      if d = mark then .char mark :: codePoints rest
      else
        match place? d with
        | some place => .surrogate place :: codePoints rest
        | none => .char c :: codePoints (d :: rest)
    else .char c :: codePoints (d :: rest)

/-- The text of code points. -/
def ofCodePoints (points : List CodePoint) : String :=
  String.ofList (points.flatMap CodePoint.stored)

/-- The code points of a text. -/
def toCodePoints (s : String) : List CodePoint :=
  codePoints s.toList

/-- The text of characters only. -/
def ofChars (cs : List Char) : String :=
  ofCodePoints (cs.map .char)

/-- The number of a surrogate's numeral. -/
theorem toNat_numeral (place : Fin surrogateCount) :
    (numeral place).toNat = firstNumeral + place := by
  have hplace := place.isLt
  have hvalid : (firstNumeral + place.val).isValidChar := by
    right
    simp only [firstNumeral, surrogateCount] at hplace ⊢
    omega
  -- a valid number is the number of its character
  have hnumeral : numeral place = Char.ofNatAux (firstNumeral + place.val) hvalid :=
    dif_pos hvalid
  rw [hnumeral]
  rfl

/-- A numeral gives back the surrogate that it numbers. -/
theorem place?_numeral (place : Fin surrogateCount) : place? (numeral place) = some place := by
  have hplace := place.isLt
  simp only [place?, toNat_numeral]
  rw [dif_pos (by omega)]
  simp

/-- No numeral is the mark. -/
theorem numeral_ne_mark (place : Fin surrogateCount) : numeral place ≠ mark := by
  intro h
  have hplace := place.isLt
  have hnumber := congrArg Char.toNat h
  have hmark : mark.toNat = 0x10ffff := by decide
  rw [toNat_numeral, hmark] at hnumber
  simp only [firstNumeral, surrogateCount] at hplace hnumber
  omega

/-- A character that is not the mark stores itself, whatever follows. -/
theorem codePoints_cons {c : Char} (h : c ≠ mark) (rest : List Char) :
    codePoints (c :: rest) = .char c :: codePoints rest := by
  cases rest with
  | nil => rfl
  | cons d rest => simp [codePoints, h]

/-- The first code point of a stored row is read back. -/
theorem codePoints_stored_append (point : CodePoint) (rest : List Char) :
    codePoints (point.stored ++ rest) = point :: codePoints rest := by
  cases point with
  | char c =>
      by_cases h : c = mark
      · simp [CodePoint.stored, codePoints, h]
      · simp [CodePoint.stored, h, codePoints_cons h]
  | surrogate place =>
      simp [CodePoint.stored, codePoints, numeral_ne_mark, place?_numeral]

/-- Storing code points loses nothing. -/
theorem codePoints_stored (points : List CodePoint) :
    codePoints (points.flatMap CodePoint.stored) = points := by
  induction points with
  | nil => rfl
  | cons point points ih => rw [List.flatMap_cons, codePoints_stored_append, ih]

end RecordQuery.Text
