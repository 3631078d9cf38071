import RecordQuery.Filter.Shape
import RecordQuery.Value.Coercion
import RecordQuery.Whitelist
/-!
# Building filters

From a raw filter in any of the three shapes to its canonical tree. Every leaf names its attribute
and carries core operators, each at most once, with values in the form that the operator takes:
lists for operators on several values and pairs for ranges, also inside literal envelopes. The first
fault that is met is reported with its place in the raw filter.
-/

namespace RecordQuery

/-! ## Operators -/

/-- The operator that a key spells, which has to be one of the vocabulary. -/
def Operator.ofKey (key : String) (place : Value) : Except FilterError Operator :=
  match ofSpelling? key with
  | some op => .ok op
  | none => .error (.unknownOperator (.text key) vocabulary place)

/-- The operator that a value spells. What is no text goes by the text of its own, which spells
none. -/
def Operator.ofValue (v place : Value) : Except Error Operator := do
  let key ← liftFault v.written
  liftFilter (ofKey key place)

/-! ## Values of operators -/

/-- A value without an envelope in the form that an operator takes. -/
def shapeBare (op : Operator) (v : Value) : Except FilterError Value :=
  if op.isListed then .ok (.list v.toItems)
  else if op = .between then v.toRange.map Value.ofRange
  else .ok v

mutual

/-- A value in the form that an operator takes. The content of a literal envelope is shaped in its
place; other envelopes are kept as they are. -/
def shapeValue (op : Operator) : Value → Except FilterError Value
  | .record fields =>
    if Fields.has fields "val" && decide ((Value.record fields).kind = .literal) then
      (shapeContent op fields).map .record
    else if Fields.has fields "val" then .ok (.record fields)
    else shapeBare op (.record fields)
  | v => shapeBare op v
termination_by structural value => value

/-- The fields of an envelope with its content shaped. -/
def shapeContent (op : Operator) : List (String × Value) →
    Except FilterError (List (String × Value))
  | [] => .ok []
  | (key, value) :: rest =>
    -- the content alone is shaped; the other fields stay as they are
    if key = "val" then do
      let value ← shapeValue op value
      return (key, value) :: rest
    else do
      let rest ← shapeContent op rest
      return (key, value) :: rest
termination_by structural fields => fields

end

/-! ## Leaves -/

/-- The connective of a record: that of its field `logicalOp`, which has to be one of the allowed
ones, and conjunction without one. A value that cannot be written is no word, and refusing it fails as
looking at its word would. -/
def joinerOf (fields : Fields) (path : String) (allowed : List Connective) :
    Except FilterError Connective :=
  let value := (Fields.get? fields "logicalOp").getD .null
  let refused := FilterError.shape (.badConnective value allowed) (.text s!"{path}.logicalOp")
  match value with
  | .null => .ok .and
  | .connective c => if c ∈ allowed then .ok c else .error refused
  | v =>
    match allowed.find? fun c => c.word == v.asText.toLower with
    | some c => .ok c
    | none => .error refused

/-- The connectives that may join the criteria of a leaf. -/
def leafJoiners : List Connective := [.and, .or]

/-- The criteria of an operator map, after those whose operators and spellings are `seen`. -/
def criteriaAfter (w : Option Whitelist) (name path : String) (seen : List (Operator × String)) :
    Fields → Except FilterError Criteria
  | [] => .ok []
  | (key, value) :: rest =>
    if FilterKey.isCriterion key then
      let place := Value.text s!"{path}.{key}"
      do
        let op ← Operator.ofKey key place
        -- two spellings of one operator count as a repetition
        match seen.lookup op with
        | some first => .error (.shape (.repeated op first key) place)
        | none => do
          Whitelist.checkOption w name op.name
          let value ← shapeValue op value
          let rest ← criteriaAfter w name path ((op, key) :: seen) rest
          return (op, value) :: rest
    else criteriaAfter w name path seen rest

/-- The criteria of an operator map, of which there must be one. -/
def criteriaOf (w : Option Whitelist) (name path : String) (fields : Fields) :
    Except FilterError Criteria := do
  let criteria ← criteriaAfter w name path [] fields
  if criteria.isEmpty then .error (.shape (.noOperators name) (.text path)) else return criteria

/-- The leaf of an operator map on a named attribute. -/
def leafOf (w : Option Whitelist) (name path : String) (fields : Fields) :
    Except FilterError Node := do
  let criteria ← criteriaOf w name path fields
  let joiner ← joinerOf fields path leafJoiners
  let tag := Tag.ofFields fields
  return .leaf name criteria joiner tag.id tag.label

/-- The leaf of a filter on one attribute, whose name must not be empty. -/
def attributeLeaf (w : Option Whitelist) (path : String) (fields : Fields) :
    Except FilterError Node :=
  let name := (Fields.get? fields FilterKey.name).getD .null
  match name.text? with
  | some s =>
    if s = "" then .error (.shape (.badName name) (.text s!"{path}.attribute"))
    else leafOf w s path fields
  | none => .error (.shape (.badName name) (.text s!"{path}.attribute"))

/-- The leaves of a map of attributes. -/
def mapLeaves (w : Option Whitelist) (path : String) : Fields → Except FilterError (List Node)
  | [] => .ok []
  | (key, value) :: rest =>
    if FilterKey.isMapMetadata key value then mapLeaves w path rest
    else do
      let leaf ← leafOf w key s!"{path}.{key}" (value.record?.getD [])
      let rest ← mapLeaves w path rest
      return leaf :: rest

/-- The group with one branch. -/
def Group.ofBranch (branch : Connective) (members : List Node) (tag : Tag) : Group :=
  match branch with
  | .and => { ands := members, id := tag.id, label := tag.label }
  | .or => { ors := members, id := tag.id, label := tag.label }
  | .not => { nots := members, id := tag.id, label := tag.label }

/-- The group of a map of attributes, whose leaves all stand in the branch of its connective. -/
def mapGroup (w : Option Whitelist) (path : String) (fields : Fields) :
    Except FilterError Group := do
  let branch ← joinerOf fields path Connective.all
  let leaves ← mapLeaves w path fields
  return Group.ofBranch branch leaves (Tag.ofMap fields)

/-! ## Faulty shapes -/

/-- The first key of a map of attributes that holds neither metadata nor an operator map, judged by
what it holds. -/
def mapFault (path : String) : Fields → FilterError
  | [] => .shape .unshaped (.text path)
  | (key, value) :: rest =>
    if FilterKey.isBranch key || FilterKey.isMapMetadata key value || value.isCriteria then
      mapFault path rest
    else
      match value with
      | .record inner =>
        match (Fields.keys inner).find? FilterKey.isCriterion with
        | some unknown =>
          .unknownOperator (.text unknown) Operator.vocabulary (.text s!"{path}.{key}.{unknown}")
        | none => mapFault path rest
      | _ => .shape (.notOperatorMap key value) (.text s!"{path}.{key}")

/-- The most telling error for a value that has none of the shapes. -/
def shapeFault (path : String) : Value → FilterError
  | .record fields =>
    match Fields.get? fields FilterKey.name with
    | some name =>
      match (Fields.keys fields).find? FilterKey.isCriterion with
      | some key => .unknownOperator (.text key) Operator.vocabulary (.text s!"{path}.{key}")
      | none => .shape (.noOperatorKeys name) (.text path)
    | none => mapFault path fields
  | v => .shape (.notRecord v) (.text path)

/-! ## Trees -/

mutual

/-- The canonical tree of a raw filter at a place. -/
def buildAt (w : Option Whitelist) (path : String) : Value → Except FilterError Node
  | .node n => .ok n
  | .record fields =>
    if (Value.record fields).isAttributeFilter then attributeLeaf w path fields
    else if (Value.record fields).isGroupFilter then do
      -- the branches are built in the order of the connectives, whatever their order in the record
      let ands ← buildBranch w path .and fields
      let ors ← buildBranch w path .or fields
      let nots ← buildBranch w path .not fields
      let tag := Tag.ofFields fields
      return .group ands ors nots tag.id tag.label
    else if (Value.record fields).isEntityFilter then
      (mapGroup w path fields).map Group.toNode
    else .error (shapeFault path (.record fields))
  | v => .error (shapeFault path v)
termination_by structural value => value

/-- The members of a branch among the fields of a group. -/
def buildBranch (w : Option Whitelist) (path : String) (branch : Connective) :
    List (String × Value) → Except FilterError (List Node)
  | [] => .ok []
  | (key, value) :: rest =>
    if key = branch.word then
      match value with
      | .null => .ok []
      | .list items => buildMembers w s!"{path}.{branch.word}" 0 items
      | _ => .error (.shape (.branchNotList branch) (.text s!"{path}.{branch.word}"))
    else buildBranch w path branch rest
termination_by structural fields => fields

/-- The members of a branch, of which the first has the given index. -/
def buildMembers (w : Option Whitelist) (path : String) (index : Nat) :
    List Value → Except FilterError (List Node)
  | [] => .ok []
  | value :: rest => do
    let member ← buildAt w s!"{path}[{index}]" value
    let rest ← buildMembers w path (index + 1) rest
    return member :: rest
termination_by structural values => values

end

/-- The place of the whole filter. -/
def rootPath : String := "<root>"

/-- The canonical tree of a raw filter. -/
def buildNode (w : Option Whitelist) (v : Value) : Except FilterError Node :=
  buildAt w rootPath v

/-- The group of a raw filter; a filter on one attribute becomes the only condition of a group. -/
def buildFilter (w : Option Whitelist) (v : Value) : Except FilterError Group :=
  (buildNode w v).map Group.ofNode

/-- The group of a map of attributes; every other shape is refused. -/
def buildMap (v : Value) : Except FilterError Group :=
  if v.isEntityFilter then mapGroup none rootPath (v.record?.getD [])
  else .error (shapeFault rootPath v)

end RecordQuery
