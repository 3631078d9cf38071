import RecordQuery.Fault
import RecordQuery.Number.Literal
import RecordQuery.Number.Shortest
import RecordQuery.Text.Quoted
import RecordQuery.Value.Basic
/-!
# The text of values

How a value is shown inside a message, where texts stand in quotes and every item of a list or
record is shown in turn, and the text of a value on its own, which differs only for texts,
connectives and moments. A value has a text to hand on only if none of its integers is too long for a
numeral. `kindName` is the word for the kind of a value.
-/

namespace RecordQuery

/-! ## Parts -/

/-- Texts between brackets, separated by commas. -/
def bracketed (opening closing : String) (parts : List String) : String :=
  opening ++ ", ".intercalate parts ++ closing

/-- Texts as a tuple, where a single one is followed by a comma. -/
def tupleText : List String → String
  | [part] => "(" ++ part ++ ",)"
  | parts => bracketed "(" ")" parts

/-- A connective as a member of its vocabulary. -/
def Connective.shown (c : Connective) : String :=
  "<LogicalOperator." ++ c.keyword ++ ": " ++ Text.quoted c.word ++ ">"

/-- The identifier of an operator in its vocabulary. -/
def Operator.label : Operator → String
  | .equals => "EQ"
  | .differs => "NEQ"
  | .greater => "GT"
  | .atLeast => "GTE"
  | .less => "LT"
  | .atMost => "LTE"
  | .oneOf => "IN"
  | .noneOf => "NIN"
  | .between => "BT"
  | .isNull => "IS_NULL"
  | .isEmpty => "IS_EMPTY"
  | .contains => "CONTAINS"
  | .notContains => "NOT_CONTAINS"
  | .containsSome => "CONTAINS_SOME"
  | .like => "LIKE"
  | .startsWith => "STARTS_WITH"
  | .endsWith => "ENDS_WITH"

/-- An operator as a member of its vocabulary. -/
def Operator.shown (op : Operator) : String :=
  "<FilterOperator." ++ op.label ++ ": " ++ Text.quoted op.name ++ ">"

/-- The word for a truth value. -/
def truthText (b : Bool) : String :=
  if b then "True" else "False"

/-! ## Inside a message -/

mutual

/-- A value as a message shows it. -/
def Value.shown : Value → String
  | .null => "None"
  | .bool b => truthText b
  | .int n => toString n
  | .float x => x.text
  | .text s => Text.quoted s
  | .list items => bracketed "[" "]" (Value.shownItems items)
  | .tuple items => tupleText (Value.shownItems items)
  | .record fields => bracketed "\x7b" "\x7d" (Value.shownFields fields)
  | .moment m => m.shown
  | .connective c => c.shown
  | .node n => n.shown
  | .deferred _ => "<function>"
termination_by structural value => value

/-- The items of a list, each as a message shows it. -/
def Value.shownItems : List Value → List String
  | [] => []
  | value :: rest => value.shown :: Value.shownItems rest
termination_by structural values => values

/-- The fields of a record, each with its quoted name. -/
def Value.shownFields : List (String × Value) → List String
  | [] => []
  | (key, value) :: rest => (Text.quoted key ++ ": " ++ value.shown) :: Value.shownFields rest
termination_by structural fields => fields

/-- A filter as a message shows it. -/
def Node.shown : Node → String
  | .leaf name criteria joiner id label =>
    bracketed "AttributeFilter(" ")"
      ["attribute=" ++ Text.quoted name,
        "criteria=" ++ bracketed "\x7b" "\x7d" (Node.shownCriteria criteria),
        "logical_op=" ++ joiner.shown, "filter_id=" ++ id.shown, "filter_label=" ++ label.shown]
  | .group ands ors nots id label =>
    bracketed "FilterGroup(" ")"
      ["and_=" ++ tupleText (Node.shownMembers ands), "or_=" ++ tupleText (Node.shownMembers ors),
        "not_=" ++ tupleText (Node.shownMembers nots), "filter_id=" ++ id.shown,
        "filter_label=" ++ label.shown]
termination_by structural node => node

/-- The criteria of a leaf, each with its operator. -/
def Node.shownCriteria : List (Operator × Value) → List String
  | [] => []
  | (op, value) :: rest => (op.shown ++ ": " ++ value.shown) :: Node.shownCriteria rest
termination_by structural criteria => criteria

/-- The members of a branch, each as a message shows it. -/
def Node.shownMembers : List Node → List String
  | [] => []
  | node :: rest => node.shown :: Node.shownMembers rest
termination_by structural nodes => nodes

end

/-! ## Integers that are too long -/

/-- The integer has no more digits than a numeral of an integer may have. -/
def fitsNumeral (n : Int) : Bool :=
  n.natAbs < pow10 maxIntegerDigits

mutual

/-- No integer in the value, at any depth, is too long for a numeral. -/
def Value.isWritable : Value → Bool
  | .int n => fitsNumeral n
  | .list items => Value.areWritable items
  | .tuple items => Value.areWritable items
  | .record fields => Value.fieldsWritable fields
  | .node n => n.isWritable
  | .null | .bool _ | .float _ | .text _ | .moment _ | .connective _ | .deferred _ => true
termination_by structural value => value

/-- All items of a list are writable. -/
def Value.areWritable : List Value → Bool
  | [] => true
  | value :: rest => value.isWritable && Value.areWritable rest
termination_by structural values => values

/-- All values of a record are writable. -/
def Value.fieldsWritable : List (String × Value) → Bool
  | [] => true
  | (_, value) :: rest => value.isWritable && Value.fieldsWritable rest
termination_by structural fields => fields

/-- No integer in the filter is too long for a numeral. -/
def Node.isWritable : Node → Bool
  | .leaf _ criteria _ id label =>
    Node.criteriaWritable criteria && id.isWritable && label.isWritable
  | .group ands ors nots id label =>
    Node.membersWritable ands && Node.membersWritable ors && Node.membersWritable nots &&
      id.isWritable && label.isWritable
termination_by structural node => node

/-- All operands of a leaf are writable. -/
def Node.criteriaWritable : List (Operator × Value) → Bool
  | [] => true
  | (_, value) :: rest => value.isWritable && Node.criteriaWritable rest
termination_by structural criteria => criteria

/-- All members of a branch are writable. -/
def Node.membersWritable : List Node → Bool
  | [] => true
  | node :: rest => node.isWritable && Node.membersWritable rest
termination_by structural nodes => nodes

end

/-! ## On its own -/

namespace Value

/-- The text of a value on its own. -/
def asText : Value → String
  | text s => s
  | connective c => "LogicalOperator." ++ c.keyword
  | moment m => m.text
  | value => value.shown

/-- The text of a value, which has none if an integer in it is too long. -/
def written (value : Value) : Except Fault String :=
  if value.isWritable then .ok value.asText else .error .badValue

/-- The word for the kind of a value. -/
def kindName : Value → String
  | null => "NoneType"
  | bool _ => "bool"
  | int _ => "int"
  | float _ => "float"
  | text _ => "str"
  | list _ => "list"
  | tuple _ => "tuple"
  | record _ => "dict"
  | moment _ => "datetime"
  | connective _ => "LogicalOperator"
  | node (.leaf ..) => "AttributeFilter"
  | node (.group ..) => "FilterGroup"
  | deferred _ => "function"

end Value

end RecordQuery
