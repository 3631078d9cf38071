import RecordQuery.Error
import RecordQuery.Number.Literal
import RecordQuery.Text.Split
import RecordQuery.Value.Envelope
/-!
# Coercing values

How values are brought into the form that their operator needs: numbers for comparisons by order,
lists for operators on several values, pairs for ranges, and the parts of a text that stands for
several values. Ranges are pairs, and `toRange_ofRange` says that a pair is its own range.
-/

namespace RecordQuery

/-! ## Numbers -/

/-- The number that a numeral in a text denotes. One without a point and an exponent is an integer,
and all go through the nearest double-precision number. A numeral that is padded with information
separators is no number. -/
def readNumber (s : String) : Except Fault Value :=
  match Binary64.ofText? s, Numeral.read? (Text.trimBy Text.isBlank s.toList) with
  | some x, some numeral =>
    -- an integer numeral takes the way through the nearest double-precision number too
    match numeral.integral, x.toInt? with
    | true, some n => .ok (.int n)
    | _, _ => .ok (.float x)
  | _, _ => .error .badValue

namespace Value

/-- The value is a number, or a text that is a numeral. -/
def isNumberLike : Value → Bool
  | int _ => true
  | float _ => true
  | text s => isNumeric s
  | _ => false

/-- The value is to be read as a number when compared by the operator of a spelling. -/
def readsAsNumber (v : Value) (spelling : String) : Bool :=
  Operator.isNumericSpelling spelling && v.isNumberLike

/-- The value as the operator of a spelling compares it: a number when it reads as one. -/
def coerce (v : Value) (spelling : String) : Except Fault Value :=
  match v with
  | text s => if v.readsAsNumber spelling then readNumber s else .ok v
  | _ => .ok v

/-! ## Lists and ranges -/

/-- The items of a list or tuple, and any other value as the only item. -/
def toItems (v : Value) : List Value :=
  v.items?.getD [v]

/-- The ends of a range: the first two items, or the fields `from` and `to`. -/
def toRange (v : Value) : Except FilterError (Value × Value) :=
  match v with
  | list (low :: high :: _) => .ok (low, high)
  | tuple (low :: high :: _) => .ok (low, high)
  | record fields =>
    match Fields.get? fields "from", Fields.get? fields "to" with
    | some low, some high => .ok (low, high)
    | _, _ => .error (.badRange v)
  | _ => .error (.badRange v)

/-- The value of a range. -/
def ofRange (range : Value × Value) : Value :=
  tuple [range.1, range.2]

/-- A range is its own range. -/
@[simp] theorem toRange_ofRange (range : Value × Value) : (ofRange range).toRange = .ok range := rfl

/-- The items of a list are its own items. -/
@[simp] theorem toItems_list (items : List Value) : (list items).toItems = items := rfl

end Value

/-! ## Texts for several values -/

/-- The characters that separate the values of a text for an operator on several values. -/
def isValueDelimiter (c : Char) : Bool :=
  c == '&' || c == ',' || c == '+' || c == ';' || c == ':' || c == '.'

/-- The characters that separate search keywords. -/
def isKeywordDelimiter (c : Char) : Bool :=
  c == '&' || c == ' ' || c == ',' || c == '+'

/-- The values that a text stands for. -/
def splitValues (s : String) : List String :=
  Text.splitRuns isValueDelimiter s

/-- The keywords of a search text. -/
def splitKeywordText (s : String) : List String :=
  Text.splitRuns isKeywordDelimiter (Text.trim s)

/-- The keywords of a search: those of a text, and of anything else that can be gone through the
elements that count as true. -/
def splitKeywords (v : Value) : Except Fault (List Value) :=
  if !v.truthy then .ok []
  else
    match v.text? with
    | some s => .ok ((splitKeywordText s).map .text)
    | none =>
      match v.elements? with
      | some elements => .ok (elements.filter Value.truthy)
      | none => .error .wrongKind

end RecordQuery
