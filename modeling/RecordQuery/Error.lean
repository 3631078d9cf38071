import RecordQuery.Fault
import RecordQuery.Json.Lexeme
import RecordQuery.Text.Similarity
import RecordQuery.Value.Equality
import RecordQuery.Value.Text
/-!
# Errors

Everything that can be wrong with a filter, its query parameters or the expression surface it is
compiled for, by cause. `FilterError.message` is the text for a reader and `FilterError.details` the
record for a program. `FilterError.path?` is the place of the fault inside the filter, when it has
one. An error is raised with its message, so that one whose message cannot be written is never raised
itself (`FilterError.raised`).
-/

namespace RecordQuery

/-! ## Causes -/

/-- What is wrong with a query parameter or with the text of a filter. -/
inductive ParseFault
  | emptyName
  | openBracket
  | closingBracket
  | missingName
  | emptySegment
  | afterBracket (c : Char)
  | plainOverNested
  | nestedUnderPlain
  | groupConflict (word : String)
  | notFragment (got : Value)
  | badJson (flaw : Json.Flaw)
  | notRecord (got : Value)
  /-- A cause in the words of whoever reports it. -/
  | stated (message : Value)
deriving DecidableEq

/-- What is wrong with the shape of a filter. -/
inductive ShapeFault
  | notRecord (got : Value)
  | badName (got : Value)
  | badConnective (got : Value) (allowed : List Connective)
  | branchNotList (branch : Connective)
  | repeated (op : Operator) (first second : String)
  | noOperators (name : String)
  | noOperatorKeys (name : Value)
  | notOperatorMap (key : String) (got : Value)
  | unshaped
  | memberNotRecord (branch : String) (got : Value)
  /-- A cause in the words of whoever reports it. -/
  | stated (message : Value)
deriving DecidableEq

/-- What is wrong with a filter. Places, keys and names are kept as they were given. -/
inductive FilterError
  /-- Any other error, with the values it reports. -/
  | other (arguments : List Value)
  | parse (fault : ParseFault) (key : Value)
  | shape (fault : ShapeFault) (path : Value)
  | unknownOperator (operator : Value) (known : List String) (path : Value)
  | unsupported (operator operation : Value) (available : List String)
  | badRange (value : Value)
  | unknownAttribute (name entity : Value) (known suggestions : List String)
  | unknownEntity (entity name source : Value)
  | notAllowed (name operator : Value)
deriving DecidableEq

/-- A fault of one field of a schema model. -/
structure Issue where
  place : List String
  kind : String
deriving DecidableEq, Repr

/-- What can go wrong in the whole library. -/
inductive Error
  | filter (e : FilterError)
  | fault (f : Fault)
  | model (issues : List Issue)
deriving DecidableEq

/-! ## Raising -/

/-- The values that the statement of a parse fault about a key shows. -/
def ParseFault.values (key : Value) : ParseFault → List Value
  | emptyName | groupConflict _ | badJson _ | notRecord _ => []
  | notFragment got => [key, got]
  | stated message => [message]
  | _ => [key]

/-- The values that the statement of a shape fault shows. -/
def ShapeFault.values : ShapeFault → List Value
  | badName got | badConnective got _ | notOperatorMap _ got | memberNotRecord _ got => [got]
  | noOperatorKeys name => [name]
  | stated message => [message]
  | _ => []

namespace FilterError

/-- The values that the message of an error shows. -/
def values : FilterError → List Value
  | other arguments => arguments
  | parse fault key => fault.values key
  | shape fault _ => fault.values
  | unknownOperator operator _ _ => [operator]
  | unsupported operator operation _ => [operator, operation]
  | badRange value => [value]
  | unknownAttribute name entity _ _ => [name, entity]
  | unknownEntity entity name source => [entity, name, source]
  | notAllowed name operator => [name, operator]

/-- No integer that the message shows is too long for a numeral. -/
def isWritable (e : FilterError) : Bool :=
  Value.areWritable e.values

/-- What is raised for an error. Its message is written first, and where that fails, the fault of
writing it is raised in its place. -/
def raised (e : FilterError) : Error :=
  if e.isWritable then .filter e else .fault .badValue

end FilterError

/-- An error of a filter is raised. -/
def liftFilter {α : Type} : Except FilterError α → Except Error α
  | .ok a => .ok a
  | .error e => .error e.raised

/-- A fault of a value is an error. -/
def liftFault {α : Type} : Except Fault α → Except Error α
  | .ok a => .ok a
  | .error f => .error (.fault f)

instance : MonadLift (Except FilterError) (Except Error) := ⟨liftFilter⟩

instance : MonadLift (Except Fault) (Except Error) := ⟨liftFault⟩

/-! ## Suggestions -/

/-- The likeness from which on a name is suggested, unless another one is given. -/
def suggestionCutoff : Binary64 := .ofRatio false 6 10

/-- The known operators that an unknown one may have been meant for. -/
def suggestOperators (operator : Value) (known : List String) : List String :=
  Text.Similarity.closest operator.asText known 3 suggestionCutoff

/-- The known attributes that an unknown one may have been meant for. -/
def suggestAttributes (name : Value) (known : List String) (cutoff : Binary64) : List String :=
  Text.Similarity.closest name.asText known 5 cutoff

/-- A likeness to suggest names from, which must lie between none and full likeness. -/
def checkCutoff (cutoff : Binary64) : Except Fault Binary64 :=
  if (Binary64.ofNat 0).le cutoff && cutoff.le (.ofNat 1) then .ok cutoff else .error .badValue

/-- The error for an attribute that is not among the known ones, with suggestions from a given
likeness on. -/
def FilterError.missingAttributeAt (cutoff : Binary64) (name entity : Value) (known : List String) :
    FilterError :=
  .unknownAttribute name entity known (suggestAttributes name known cutoff)

/-- The error for an attribute that is not among the known ones, with suggestions. -/
def FilterError.missingAttribute (name entity : Value) (known : List String) : FilterError :=
  .missingAttributeAt suggestionCutoff name entity known

/-! ## Wording -/

/-- Texts with commas between them. -/
def listed (texts : List String) : String :=
  ", ".intercalate texts

/-- The statement of a parse fault about a key. -/
def ParseFault.statement (key : Value) : ParseFault → Value
  | emptyName => .text "Empty query parameter name"
  | openBracket => .text ("Unbalanced '[' in " ++ key.shown)
  | closingBracket => .text ("Unbalanced ']' in " ++ key.shown)
  | missingName => .text ("Missing name before '[' in " ++ key.shown)
  | emptySegment => .text ("Empty segment in " ++ key.shown)
  | afterBracket c =>
    .text ("Unexpected " ++ Text.quoted (String.ofList [c]) ++ " after ']' in " ++ key.shown)
  | plainOverNested => .text ("Parameter " ++ key.shown ++ " mixes a plain value with nested keys")
  | nestedUnderPlain => .text ("Parameter " ++ key.shown ++ " nests under a plain value")
  | groupConflict word => .text ("Conflicting use of group key " ++ Text.quoted word)
  | notFragment got =>
    .text ("Group parameter " ++ key.shown ++ " needs filter fragments, got " ++ got.shown)
  | badJson flaw => .text ("'filters' is not valid JSON: " ++ flaw.message)
  | notRecord got => .text ("'filters' must be an object, got " ++ got.kindName)
  | stated message => message

/-- The statement of a shape fault. -/
def ShapeFault.statement : ShapeFault → Value
  | notRecord got => .text ("Expected a filter mapping, got " ++ got.kindName)
  | badName got => .text ("'attribute' must be a non-empty string, got " ++ got.shown)
  | badConnective got allowed =>
    .text ("Invalid logicalOp " ++ got.shown ++ "; expected one of " ++
      listed (allowed.map Connective.word))
  | branchNotList branch => .text ("Group branch '" ++ branch.word ++ "' must be a list")
  | repeated op first second =>
    .text ("Operator '" ++ op.name ++ "' given more than once (as '" ++ first ++ "' and '" ++
      second ++ "')")
  | noOperators name => .text ("No operators given for attribute '" ++ name ++ "'")
  | noOperatorKeys name => .text ("Attribute filter for '" ++ name.asText ++ "' has no operators")
  | notOperatorMap key got =>
    .text ("'" ++ key ++ "' is not an operator map (got " ++ got.shown ++
      "); node is not an AttributeFilter, EntityFilter or FilterGroup")
  | unshaped => .text "Node is not an AttributeFilter, EntityFilter or FilterGroup"
  | memberNotRecord branch got =>
    .text ("Group '" ++ branch ++ "' items must be mappings, got " ++ got.shown)
  | stated message => message

/-- The number of known operators that a message names. -/
def namedOperators : Nat := 10

/-- The number of known attributes that a message names. -/
def namedAttributes : Nat := 15

/-- The message about an unknown operator. -/
def unknownOperatorMessage (operator : Value) (known : List String) : String :=
  let suggestions := suggestOperators operator known
  "Unknown operator: '" ++ operator.asText ++ "'." ++
    (if suggestions.isEmpty then "" else " Did you mean: " ++ listed suggestions ++ "?") ++
    " Valid operators: " ++ listed ((Operator.sorted known).take namedOperators) ++ "..."

/-- The message about an unknown attribute. -/
def unknownAttributeMessage (name entity : Value) (known suggestions : List String) : String :=
  let owner := if entity.truthy then entity.asText else "<expression surface>"
  let sorted := Operator.sorted known
  let hints :=
    if suggestions.isEmpty then []
    else "Did you mean one of these?" :: suggestions.map ("  • " ++ ·)
  let preview := listed (sorted.take namedAttributes) ++
    (if namedAttributes < sorted.length then ", ..." else "")
  "\n".intercalate (("Unknown attribute '" ++ name.asText ++ "' on '" ++ owner ++ "'.") :: hints ++
    ["Available attributes: " ++ preview])

namespace FilterError

/-- The text of an error that reports values. -/
def argumentsText : List Value → String
  | [] => ""
  | [argument] => argument.asText
  | arguments => (Value.tuple arguments).shown

/-- The message of an error. -/
def message : FilterError → String
  | other arguments => argumentsText arguments
  | parse fault key => (fault.statement key).asText
  | shape fault _ => fault.statement.asText
  | unknownOperator operator known _ => unknownOperatorMessage operator known
  | unsupported operator operation available =>
    "Operator '" ++ operator.asText ++ "' requires the '" ++ operation.asText ++
      "' operation, which the expression surface does not provide. Available operations: " ++
      listed (Operator.sorted available)
  | badRange value =>
    "Invalid range value format: " ++ value.shown ++
      ". Expected [from, to] or \x7b'from': ..., 'to': ...\x7d"
  | unknownAttribute name entity known suggestions =>
    unknownAttributeMessage name entity known suggestions
  | unknownEntity entity name source =>
    let owner :=
      if source.truthy then "'" ++ source.asText ++ "." ++ name.asText ++ "'"
      else "'" ++ name.asText ++ "'"
    "Relation " ++ owner ++ " targets entity '" ++ entity.asText ++
      "', which is not registered in the schema registry"
  | notAllowed name .null => "Attribute " ++ name.shown ++ " is not filterable"
  | notAllowed name operator =>
    "Operator " ++ operator.shown ++ " not allowed for attribute " ++ name.shown

/-- The names of the known things, in ascending order. -/
def sortedTexts (names : List String) : Value :=
  .ofTexts (Operator.sorted names)

/-- The record that describes an error. -/
def details : FilterError → Value
  | other arguments =>
    .record [("error", .text "FilterError"), ("message", .text (argumentsText arguments))]
  | parse fault key =>
    .record [("error", .text "FILTER_PARSE_ERROR"), ("message", fault.statement key), ("key", key)]
  | shape fault path =>
    .record [("error", .text "INVALID_FILTER_SHAPE"), ("message", fault.statement), ("path", path)]
  | unknownOperator operator known path =>
    .record [("error", .text "INVALID_OPERATOR"), ("operator", operator), ("path", path),
      ("suggestions", .ofTexts (suggestOperators operator known)),
      ("valid_operators", sortedTexts known)]
  | unsupported operator operation available =>
    .record [("error", .text "UNSUPPORTED_OPERATION"), ("operator", operator),
      ("operation", operation), ("available_operations", sortedTexts available)]
  | badRange value =>
    .record [("error", .text "INVALID_RANGE_FORMAT"), ("message", .text (badRange value).message),
      ("value", .text value.shown)]
  | unknownAttribute name entity known suggestions =>
    .record [("error", .text "UNKNOWN_ATTRIBUTE"), ("attribute", name), ("entity", entity),
      ("suggestions", .ofTexts suggestions), ("available_attributes", sortedTexts known)]
  | unknownEntity entity name source =>
    .record [("error", .text "RELATED_ENTITY_NOT_FOUND"), ("entity", entity), ("attribute", name),
      ("source_entity", source)]
  | notAllowed name operator =>
    .record [("error", .text "ATTRIBUTE_NOT_ALLOWED"), ("attribute", name), ("operator", operator),
      ("message", .text (notAllowed name operator).message)]

/-- The place of the fault inside the filter. -/
def path? : FilterError → Option Value
  | shape _ path => some path
  | unknownOperator _ _ path => some path
  | _ => none

/-! ## Kinds -/

/-- The kinds of errors. -/
inductive Kind
  | general
  | parse
  | shape
  | operator
  | unsupported
  | range
  | attribute
  | entity
  | permission
deriving DecidableEq, Repr

/-- The more general kinds, from the nearest on. -/
def Kind.ancestors : Kind → List Kind
  | general => []
  | operator => [shape, general]
  | unsupported => [operator, shape, general]
  | _ => [general]

/-- The kind of an error. -/
def kind : FilterError → Kind
  | other _ => .general
  | .parse .. => .parse
  | .shape .. => .shape
  | unknownOperator .. => .operator
  | .unsupported .. => .unsupported
  | badRange _ => .range
  | unknownAttribute .. => .attribute
  | unknownEntity .. => .entity
  | notAllowed .. => .permission

end FilterError

end RecordQuery
