import RecordQuery.Number.Binary64
import RecordQuery.Text.Blank
import RecordQuery.Text.Digit
/-!
# Numerals

Reading numbers from text, in the decimal digits of any script. A numeral is a sign, digits with an
optional point, and an optional exponent. Numbers read from text may also be padded with blanks and
have single underscores between digits, and integers may have no more than `maxIntegerDigits`
digits.
-/

namespace RecordQuery

open Text

/-! ## Parts of a numeral -/

/-- A numeral taken apart: the values of its digits before and after the point, and its exponent. -/
structure Numeral where
  negative : Bool
  whole : List Nat
  fraction : List Nat
  exponent : Int
  integral : Bool
deriving DecidableEq, Repr

namespace Numeral

/-- The digit values at the start of a text, and the rest of it. -/
def takeDigits : List Char → List Nat × List Char
  | [] => ([], [])
  | c :: cs =>
    match Digit.value? c with
    | some d => ((takeDigits cs).map (d :: ·) id)
    | none => ([], c :: cs)

/-- A sign at the start of a text, and the rest of it. -/
def takeSign : List Char → Bool × List Char
  | '-' :: cs => (true, cs)
  | '+' :: cs => (false, cs)
  | cs => (false, cs)

/-- The digits after a point, if there is one; the flag tells whether there is. -/
def takeFraction : List Char → Bool × List Nat × List Char
  | '.' :: cs => (true, takeDigits cs)
  | cs => (false, [], cs)

/-- An exponent that is the whole of the text; an empty text has exponent zero, and the flag tells
whether one is written. -/
def readExponent? : List Char → Option (Bool × Int)
  | [] => some (false, 0)
  | c :: cs =>
    if c = 'e' ∨ c = 'E' then
      let (negative, cs) := takeSign cs
      match takeDigits cs with
      | (digit :: digits, []) =>
        let magnitude : Int := ↑(Digit.toNat (digit :: digits))
        some (true, if negative then -magnitude else magnitude)
      | _ => none
    else none

/-- The numeral that is the whole of the text. -/
def read? (cs : List Char) : Option Numeral :=
  let (negative, cs) := takeSign cs
  let (whole, cs) := takeDigits cs
  let (pointed, fraction, cs) := takeFraction cs
  if whole.isEmpty && fraction.isEmpty then none
  else
    match readExponent? cs with
    | some (scientific, exponent) =>
      some ⟨negative, whole, fraction, exponent, !pointed && !scientific⟩
    | none => none

/-- The number nearest to the numeral. -/
def toBinary64 (n : Numeral) : Binary64 :=
  .ofDecimal n.negative (Digit.toNat (n.whole ++ n.fraction))
    (n.exponent - (n.fraction.length : Int))

end Numeral

/-- The text is a numeral with blanks around it. -/
def isNumeric (s : String) : Bool :=
  (Numeral.read? (trimBy isBlank s.toList)).isSome

/-! ## Whole texts -/

/-- The characters without their underscores, each of which must stand between two digits. -/
def joinDigits? (previous : Char) : List Char → Option (List Char)
  | [] => some []
  | '_' :: c :: cs =>
    if Digit.isDecimal previous && Digit.isDecimal c then (joinDigits? c cs).map (c :: ·) else none
  | c :: cs => if c = '_' then none else (joinDigits? c cs).map (c :: ·)

/-- The text in ASCII letters is the given word, whatever the case of its letters. -/
def isWord (word : String) (cs : List Char) : Bool :=
  cs.map Char.toLower == word.toList

/-- The number that a text denotes: a padded numeral, or a word for an infinite or undefined one. -/
def Binary64.ofText? (s : String) : Option Binary64 := do
  let cs := trimBy isPadding s.toList
  let (negative, word) := Numeral.takeSign cs
  -- the words may carry a sign too
  if isWord "inf" word || isWord "infinity" word then return .infinity negative
  if isWord "nan" word then return .nan
  let joined ← joinDigits? ' ' cs
  let numeral ← Numeral.read? joined
  return numeral.toBinary64

/-- An integer numeral has at most this many digits. -/
def maxIntegerDigits : Nat := 4300

/-- The integer that a text denotes: padding, a sign and digits. -/
def readInteger? (s : String) : Option Int := do
  let (negative, cs) := Numeral.takeSign (trimBy isPadding s.toList)
  let joined ← joinDigits? ' ' cs
  match Numeral.takeDigits joined with
  | (digit :: digits, []) =>
    if maxIntegerDigits < (digit :: digits).length then none
    else
      let magnitude : Int := ↑(Digit.toNat (digit :: digits))
      return if negative then -magnitude else magnitude
  | _ => none

end RecordQuery
