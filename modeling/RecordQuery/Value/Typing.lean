import RecordQuery.Calendar.Reading
import RecordQuery.Json.Reading
import RecordQuery.Value.Coercion
/-!
# Typing query values

Values from a query string are texts; typing reads each as what it most likely means: nothing, a
truth value, a number, a JSON text, a moment, or else the text itself. Lists and records are typed
item by item, at any depth: the room that a reader of nested values takes is not modelled.
`typed_of_scalar` says that whatever is not a text, list or record stays as it is.
-/

namespace RecordQuery

/-- The words for the absent value. -/
def isNullWord (s : String) : Bool :=
  s == "null" || s == "undefined"

/-- The characters that begin a JSON text worth reading. -/
def beginsJson (cs : List Char) : Bool :=
  cs.head? == some '\x7b' || cs.head? == some '['

/-- The value of a text that is JSON; a malformed text has none, and an integer that is too long is
a fault. -/
def readEmbeddedJson (s : String) : Except Fault (Option Value) :=
  if beginsJson s.toList then
    match Json.read s with
    | .ok v => .ok (some v)
    | .error (.malformed _) => .ok none
    | .error (.fault f) => .error f
  else .ok none

/-- The moment or the text itself. -/
def readMomentOr (s : String) : Except Fault Value := do
  match ← Moment.ofText? (Text.trimBy Text.isBlank s.toList) with
  | some m => return .moment m
  | none => return .text s

/-- What a text from a query string most likely means. -/
def typedText (s : String) : Except Fault Value :=
  if s = "" then .ok (.text s)
  else if isNullWord s then .ok .null
  else if s = "true" ∨ s = "false" then .ok (.bool (s = "true"))
  else if isNumeric s then readNumber s
  else do
    -- a malformed JSON text may still be a moment, and is itself otherwise
    match ← readEmbeddedJson (Text.trim s) with
    | some v => return v
    | none => readMomentOr s

mutual

/-- A value from a query string with all its texts typed. Tuples become lists. -/
def Value.typed : Value → Except Fault Value
  | .text s => typedText s
  | .connective c => typedText c.word
  | .list items => do return .list (← Value.typedItems items)
  | .tuple items => do return .list (← Value.typedItems items)
  | .record fields => do return .record (← Value.typedFields fields)
  | v => .ok v
termination_by structural value => value

/-- The items of a list, typed in turn. -/
def Value.typedItems : List Value → Except Fault (List Value)
  | [] => .ok []
  | value :: rest => do
    let value ← value.typed
    let rest ← Value.typedItems rest
    return value :: rest
termination_by structural values => values

/-- The fields of a record, typed in turn. -/
def Value.typedFields : List (String × Value) → Except Fault (List (String × Value))
  | [] => .ok []
  | (key, value) :: rest => do
    let value ← value.typed
    let rest ← Value.typedFields rest
    return (key, value) :: rest
termination_by structural fields => fields

end

/-- What is no text, list or record stays as it is. -/
theorem Value.typed_of_scalar {v : Value} (ht : v.text? = none) (hi : v.items? = none)
    (hr : v.record? = none) : v.typed = .ok v := by
  cases v <;> simp_all [Value.typed, Value.text?, Value.items?, Value.record?]

end RecordQuery
