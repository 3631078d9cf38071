import RecordQuery.Fault
import RecordQuery.Number.Literal
import RecordQuery.Value.Basic
/-!
# Lexemes of JSON

The smallest parts of a JSON text: blanks, strings with their escapes, numbers and the constant
words. Every reader gives back what follows the part it has read, which is shorter than its input,
so readers built from them end.
-/

namespace RecordQuery.Json

/-- What is wrong with a JSON text. -/
inductive Flaw
  | byteOrderMark
  | missingValue
  | extraData
  | missingName
  | missingColon
  | missingComma
  | openString
  | controlCharacter
  | badEscape
  | badCodePoint
deriving DecidableEq, Repr

/-- The wording of a flaw. -/
def Flaw.message : Flaw → String
  | byteOrderMark => "Unexpected UTF-8 BOM (decode using utf-8-sig)"
  | missingValue => "Expecting value"
  | extraData => "Extra data"
  | missingName => "Expecting property name enclosed in double quotes"
  | missingColon => "Expecting ':' delimiter"
  | missingComma => "Expecting ',' delimiter"
  | openString => "Unterminated string starting at"
  | controlCharacter => "Invalid control character at"
  | badEscape => "Invalid \\escape"
  | badCodePoint => "Invalid \\uXXXX escape"

/-- Why a JSON text has no value: it is malformed, or one of its numbers cannot be converted. -/
inductive Failure
  | malformed (flaw : Flaw)
  | fault (f : Fault)
deriving DecidableEq, Repr

/-- What is left of a text after a part of it has been read. -/
abbrev Rest (cs : List Char) := { rest : List Char // rest.length < cs.length }

/-- What is left after something that began later in the text. -/
def Rest.weaken {cs ds : List Char} (rest : Rest ds) (h : ds.length ≤ cs.length) : Rest cs :=
  ⟨rest.1, Nat.lt_of_lt_of_le rest.2 h⟩

/-! ## Blanks -/

/-- The characters that may stand between lexemes. -/
def isGap (c : Char) : Bool :=
  c == ' ' || c == '\t' || c == '\n' || c == '\r'

/-- The text from its first lexeme on. -/
def skipGap (cs : List Char) : List Char :=
  cs.dropWhile isGap

/-- Skipping blanks makes no text longer. -/
theorem length_skipGap_le (cs : List Char) : (skipGap cs).length ≤ cs.length :=
  (List.dropWhile_sublist isGap).length_le

/-! ## Strings -/

/-- The value of a hexadecimal digit. -/
def hexValue? (c : Char) : Option Nat :=
  if c.isDigit then some (c.toNat - 48)
  else if 'a' ≤ c ∧ c ≤ 'f' then some (c.toNat - 87)
  else if 'A' ≤ c ∧ c ≤ 'F' then some (c.toNat - 55)
  else none

/-- The number that four hexadecimal digits denote, and what follows them, which may not be
empty. -/
def readHex (cs : List Char) : Except Flaw (Nat × Rest cs) :=
  match cs with
  | a :: b :: c :: d :: e :: rest =>
    match hexValue? a, hexValue? b, hexValue? c, hexValue? d with
    | some a', some b', some c', some d' =>
      .ok (4096 * a' + 256 * b' + 16 * c' + d', ⟨e :: rest, by simp⟩)
    | _, _, _, _ => .error .badCodePoint
  | _ => .error .badCodePoint

/-- The first half of a pair of code units. -/
def isLeadUnit (n : Nat) : Bool :=
  0xd800 ≤ n && n ≤ 0xdbff

/-- The second half of a pair of code units. -/
def isTrailUnit (n : Nat) : Bool :=
  0xdc00 ≤ n && n ≤ 0xdfff

/-- The code point that a lead unit and a trail unit denote together. -/
def pairPoint (lead trail : Nat) : Text.CodePoint :=
  .ofNumber (0x10000 + 1024 * (lead - 0xd800) + (trail - 0xdc00))

/-- The code point of an escape by code unit, after its letter. A lead unit joins with a trail unit
that follows it as an escape of its own; a unit without its partner is a surrogate. -/
def readUnit (cs : List Char) : Except Flaw (Text.CodePoint × Rest cs) := do
  let (unit, rest) ← readHex cs
  if isLeadUnit unit then
    match h : rest.1 with
    | '\\' :: 'u' :: more =>
      -- too near to the end for a second escape and a closing quote
      if more.length < 5 then return (.ofNumber unit, rest)
      let (trail, rest') ← readHex more
      if isTrailUnit trail then
        return (pairPoint unit trail, rest'.weaken (by
          have hrest := rest.2
          rw [h] at hrest
          simp only [List.length_cons] at hrest
          omega))
      -- not a pair: the second escape is read on its own
      return (.ofNumber unit, rest)
    | _ => return (.ofNumber unit, rest)
  else return (.ofNumber unit, rest)

/-- The character of a one-letter escape. -/
def simpleEscape? (c : Char) : Option Char :=
  [('\x22', '\x22'), ('\\', '\\'), ('/', '/'), ('b', '\x08'), ('f', '\x0c'), ('n', '\n'),
    ('r', '\r'), ('t', '\t')].lookup c

/-- The code point of an escape, after its backslash. -/
def readEscape (cs : List Char) : Except Flaw (Text.CodePoint × Rest cs) :=
  match cs with
  | [] => .error .openString
  | c :: rest =>
    if c = 'u' then do
      let (point, rest) ← readUnit rest
      return (point, rest.weaken (by simp))
    else
      match simpleEscape? c with
      | some char => .ok (.char char, ⟨rest, by simp⟩)
      | none => .error .badEscape

/-- The characters that store a string, after its opening quote. -/
def readString (cs : List Char) : Except Flaw (List Char × Rest cs) :=
  match cs with
  | [] => .error .openString
  | c :: rest =>
    if c = '\x22' then .ok ([], ⟨rest, by simp⟩)
    else if c = '\\' then do
      let (point, ⟨rest', h⟩) ← readEscape rest
      let (chars, more) ← readString rest'
      return (point.stored ++ chars, more.weaken (by simp; omega))
    else if c.toNat ≤ 0x1f then .error .controlCharacter
    else do
      let (chars, more) ← readString rest
      return (c :: chars, more.weaken (by simp))
termination_by cs.length
decreasing_by
  · simp; omega
  · simp

/-! ## Numbers -/

/-- A number as it is written: its sign, digits, and exponent if it has one. -/
structure Number where
  negative : Bool
  whole : List Char
  fraction : List Char
  exponent : Option Int

/-- The values of ASCII digits. -/
def digitValues (cs : List Char) : List Nat :=
  cs.map fun c => c.toNat - 48

/-- The digits before the point: a single zero, or digits that do not begin with one. -/
def takeWhole : List Char → List Char × List Char
  | '0' :: rest => (['0'], rest)
  | cs => (cs.takeWhile Char.isDigit, cs.dropWhile Char.isDigit)

/-- The digits after a point; a point without digits is left alone. -/
def takePlaces : List Char → List Char × List Char
  | '.' :: rest =>
    let places := rest.takeWhile Char.isDigit
    if places.isEmpty then ([], '.' :: rest) else (places, rest.dropWhile Char.isDigit)
  | cs => ([], cs)

/-- The exponent; one without digits is left alone. -/
def takeExponent : List Char → Option Int × List Char
  | c :: rest =>
    if c = 'e' ∨ c = 'E' then
      let (negative, digits) := Numeral.takeSign rest
      let written := digits.takeWhile Char.isDigit
      let magnitude : Int := ↑(Text.Digit.toNat (digitValues written))
      if written.isEmpty then (none, c :: rest)
      else (some (if negative then -magnitude else magnitude), digits.dropWhile Char.isDigit)
    else (none, c :: rest)
  | [] => (none, [])

/-- The number at the start of a text. -/
def takeNumber? (cs : List Char) : Option (Number × List Char) :=
  let (negative, unsigned) :=
    match cs with
    | '-' :: rest => (true, rest)
    | _ => (false, cs)
  let (whole, rest) := takeWhole unsigned
  if whole.isEmpty then none
  else
    let (fraction, rest) := takePlaces rest
    let (exponent, rest) := takeExponent rest
    some (⟨negative, whole, fraction, exponent⟩, rest)

/-- The value of a number: an integer when neither places nor an exponent are written. -/
def Number.value (n : Number) : Except Failure Value :=
  match n.fraction, n.exponent with
  | [], none =>
    if maxIntegerDigits < n.whole.length then .error (.fault .badValue)
    else
      let magnitude : Int := ↑(Text.Digit.toNat (digitValues n.whole))
      .ok (.int (if n.negative then -magnitude else magnitude))
  | fraction, exponent =>
    .ok (.float (.ofDecimal n.negative (Text.Digit.toNat (digitValues (n.whole ++ fraction)))
      (exponent.getD 0 - (fraction.length : Int))))

/-! ## Constants -/

/-- The constant words and their values. -/
def constants : List (List Char × Value) := [
  (['n', 'u', 'l', 'l'], .null),
  (['t', 'r', 'u', 'e'], .bool true),
  (['f', 'a', 'l', 's', 'e'], .bool false),
  (['N', 'a', 'N'], .float .nan),
  (['I', 'n', 'f', 'i', 'n', 'i', 't', 'y'], .float (.infinity false)),
  (['-', 'I', 'n', 'f', 'i', 'n', 'i', 't', 'y'], .float (.infinity true))]

/-- The value of the constant word or number at the start of a text. -/
def readScalar (cs : List Char) : Except Failure (Value × Rest cs) :=
  match constants.find? fun constant => constant.1.isPrefixOf cs with
  | some (word, value) =>
    let rest := cs.drop word.length
    if h : rest.length < cs.length then .ok (value, ⟨rest, h⟩)
    else .error (.malformed .missingValue)
  | none =>
    match takeNumber? cs with
    | some (number, rest) =>
      if h : rest.length < cs.length then do
        let value ← number.value
        return (value, ⟨rest, h⟩)
      else .error (.malformed .missingValue)
    | none => .error (.malformed .missingValue)

end RecordQuery.Json
