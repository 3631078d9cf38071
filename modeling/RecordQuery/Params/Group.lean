import RecordQuery.Filter.Build
import RecordQuery.Params.Tree
import RecordQuery.Value.Typing
/-!
# Filters from query parameters

Parameters in nested form become a filter group. Attributes stand in the `and` branch, group keys
fill the branches of their names, and groups within groups keep their branches. A plain value means
equality, a text for an operator on several values is split, and all values are typed.
-/

namespace RecordQuery.Params

/-- The identifier of the group of query parameters. -/
def groupId : String := "queryStringParamsToFilterGroup"

/-! ## Attributes -/

/-- The text for the operator of a spelling taken apart, where the operator takes several values.
The ends of a range are separated by a comma alone, because moments hold the other delimiters. -/
def splitFor (spelling s : String) : Value :=
  if Operator.isListedSpelling spelling then .ofTexts (splitValues s)
  else if Operator.ofSpelling? spelling = some .between then
    .ofTexts ((Text.splitAt ',' s).map Text.trim)
  else .text s

/-- The value for the operator of a spelling, taken apart and typed. -/
def operatorValue (spelling : String) (v : Value) : Except Fault Value :=
  match v.text? with
  | some s => (splitFor spelling s).typed
  | none => v.typed

/-- The values of an operator map, typed. -/
def operatorValues : Fields → Except Fault Fields
  | [] => .ok []
  | (key, value) :: rest => do
    let value ← operatorValue key value
    let rest ← operatorValues rest
    return (key, value) :: rest

/-- The operator map that a parameter value stands for. -/
def operatorMap : Value → Fields
  | .record fields => fields
  | v => [(Operator.equals.name, v)]

/-- The filter on one attribute that a parameter value stands for. -/
def attributeFragment (name : String) (value : Value) : Except Fault Value := do
  let operators ← operatorValues (operatorMap value)
  return .record (Fields.ofList ((FilterKey.name, .text name) :: operators))

/-! ## Groups -/

/-- The error for a member of a group that is no record. -/
def badMember (word : String) (v : Value) : Error :=
  (FilterError.shape (.memberNotRecord word v) (.text word)).raised

mutual

/-- The filters that the value of a group key stands for. -/
def groupFragments (word : String) : Value → Except Error (List Value)
  | .list items => memberFragments word items
  | .record fields => fieldFragments fields
  | v => .error (badMember word v)
termination_by structural value => value

/-- The filters that the members of a group stand for, one after the other. -/
def memberFragments (word : String) : List Value → Except Error (List Value)
  | [] => .ok []
  | .record fields :: rest => do
    let here ← fieldFragments fields
    let later ← memberFragments word rest
    return here ++ later
  | v :: _ => .error (badMember word v)
termination_by structural values => values

/-- The filters that the entries of a group member stand for. A group key makes a group of its
own. -/
def fieldFragments : List (String × Value) → Except Error (List Value)
  | [] => .ok []
  | (key, value) :: rest => do
    let here ←
      -- a group key inside a group makes one filter of all its members
      if FilterKey.isBranch key then
        (groupFragments key value).map fun members => .record [(key, .list members)]
      else liftFault (attributeFragment key value)
    let later ← fieldFragments rest
    return here :: later
termination_by structural fields => fields

end

/-- The filters that the parameters stand for, each with the branch that it belongs to. -/
def placedFragments : Fields → Except Error (List (Connective × Value))
  | [] => .ok []
  | (key, value) :: rest => do
    let here ←
      match Connective.ofWord? key with
      | some branch => (groupFragments key value).map (·.map (branch, ·))
      | none => (liftFault (attributeFragment key value)).map fun fragment => [(.and, fragment)]
    let later ← placedFragments rest
    return here ++ later

/-- The filters that belong to a branch. -/
def membersOf (branch : Connective) (placed : List (Connective × Value)) : Value :=
  .list ((placed.filter (·.1 = branch)).map (·.2))

/-- The raw group of the parameters. -/
def rawGroup (params : Fields) : Except Error Value := do
  let placed ← placedFragments params
  return .record [("filterId", .text groupId), ("and", membersOf .and placed),
    ("or", membersOf .or placed), ("not", membersOf .not placed)]

/-- The filter group of parameters in nested form. -/
def toGroup (w : Option Whitelist) (params : Fields) : Except Error Group := do
  let raw ← rawGroup params
  liftFilter (buildFilter w raw)

end RecordQuery.Params
