import RecordQuery.Expression.Basic
import RecordQuery.Expression.Surface
import RecordQuery.Filter.Build
/-!
# Compiling filters

From a canonical filter to a boolean expression over the fragments of a surface. A group demands all
of its `and` members, any of its `or` members and none of its `not` members; an operator on several
values becomes one fragment for each of them. The notices of a compilation are worked out beside it.
-/

namespace RecordQuery

open Value (openEnvelope unwrap toItems toRange)

/-! ## Operators -/

/-- How an operator is handed to the surface. -/
inductive Plan
  /-- One comparison with the value. -/
  | single (role : Role)
  /-- One comparison with each item of a list. -/
  | each (role : Role) (connective : Connective)
  /-- One comparison with both ends of a range. -/
  | range
  /-- A test for the presence or absence of a value. -/
  | presence
  /-- A comparison with the empty text. -/
  | emptiness
deriving DecidableEq, Repr

/-- How each operator is handed to the surface. -/
def Operator.plan : Operator → Plan
  | equals => .single .equals
  | differs => .single .differs
  | greater => .single .greater
  | atLeast => .single .atLeast
  | less => .single .less
  | atMost => .single .atMost
  | like => .single .begins
  | startsWith => .single .begins
  | endsWith => .single .endsWith
  | oneOf => .each .equals .or
  | noneOf => .each .differs .and
  | contains => .each .contains .and
  | containsSome => .each .contains .or
  | notContains => .each .notContains .and
  | between => .range
  | isNull => .presence
  | isEmpty => .emptiness

/-! ## Criteria -/

/-- The value that an operator hands to the surface. What an envelope refers to stays as it is, and
any other value is coerced for the operator. -/
def operand (s : Surface) (op : Operator) (v : Value) : Except Error Value := do
  let opened ← openEnvelope (some s.resolve) v
  -- only literal values are coerced: a reference or expression is text for the surface
  if v.kind = .literal then liftFault (opened.coerce op.name) else return opened

/-- The fragments for the items of a list, in order. -/
def itemFragments (s : Surface) (op : Operator) (f : Operation) (reference : Value) :
    List Value → Except Error (List Expr)
  | [] => .ok []
  | item :: rest => do
    let value ← operand s op item
    let rest ← itemFragments s op f reference rest
    return .atom (f [reference, value]) :: rest

/-- The expression for one criterion on the attribute with a reference. -/
def compileCriterion (s : Surface) (reference : Value) (op : Operator) (v : Value) :
    Except Error Expr :=
  match op.plan with
  | .single role => do
    let f ← s.operation role op
    let value ← operand s op v
    return .atom (f [reference, value])
  | .each role connective => do
    let f ← s.operation role op
    -- blank fragments stay in the join here, and vanish only with the whole criterion
    let fragments ← itemFragments s op f reference (unwrap v).toItems
    return Expr.joined connective fragments
  | .range => do
    let f ← s.operation .between op
    let (low, high) ← liftFilter (unwrap v).toRange
    let low ← operand s op low
    let high ← operand s op high
    return .atom (f [reference, low, high])
  | .presence => do
    let f ← s.operation (if (unwrap v).truthy then .present else .missing) op
    return .atom (f [reference])
  | .emptiness => do
    let f ← s.operation (if (unwrap v).truthy then .equals else .differs) op
    return .atom (f [reference, .text ""])

/-- The expressions for criteria, in order. -/
def compileCriteria (s : Surface) (reference : Value) : Criteria → Except Error (List Expr)
  | [] => .ok []
  | (op, v) :: rest => do
    let here ← compileCriterion s reference op v
    let rest ← compileCriteria s reference rest
    return here :: rest

/-- The expression for the conditions on one attribute. -/
def compileLeaf (s : Surface) (name : String) (criteria : Criteria) (joiner : Connective) :
    Except Error Expr := do
  let reference ← s.referenceOf (.text name)
  let parts ← compileCriteria s reference criteria
  return Expr.joinDemands joiner parts

/-! ## Trees -/

/-- The demand that none of the operands holds; those that make no demand are left out. -/
def refuseAll (operands : List Expr) : Expr :=
  Expr.joined .and ((operands.filter fun operand => !operand.isBlank).map .negation)

mutual

/-- The expression for a canonical filter. -/
def compileNode (s : Surface) : Node → Except Error Expr
  | .leaf name criteria joiner _ _ => compileLeaf s name criteria joiner
  | .group ands ors nots _ _ => do
    let ands ← compileMembers s ands
    let ors ← compileMembers s ors
    let nots ← compileMembers s nots
    return Expr.joinDemands .and
      [Expr.joinDemands .and ands, Expr.joinDemands .or ors, refuseAll nots]
termination_by structural node => node

/-- The expressions for the members of a branch, in order. -/
def compileMembers (s : Surface) : List Node → Except Error (List Expr)
  | [] => .ok []
  | node :: rest => do
    let here ← compileNode s node
    let rest ← compileMembers s rest
    return here :: rest
termination_by structural nodes => nodes

end

/-- The expression for a filter in any shape. -/
def compile (s : Surface) (v : Value) : Except Error Expr := do
  let node ← liftFilter (buildNode none v)
  compileNode s node

/-! ## Notices -/

/-- The notices of opening an operand. -/
def operandNotices (v : Value) : List Notice :=
  v.openNotices true ++ v.kindNotices

/-- The notices of one criterion. -/
def criterionNotices (op : Operator) (v : Value) : List Notice :=
  match op.plan with
  | .single _ => operandNotices v
  | .each _ _ => v.kindNotices ++ (unwrap v).toItems.flatMap operandNotices
  | .range =>
    v.kindNotices ++
      match (unwrap v).toRange with
      | .ok (low, high) => operandNotices low ++ operandNotices high
      | .error _ => []
  | .presence => v.kindNotices
  | .emptiness => v.kindNotices

mutual

/-- The notices of compiling a canonical filter. -/
def nodeNotices : Node → List Notice
  | .leaf _ criteria _ _ _ =>
    criteria.flatMap fun criterion => criterionNotices criterion.1 criterion.2
  | .group ands ors nots _ _ => memberNotices ands ++ memberNotices ors ++ memberNotices nots
termination_by structural node => node

/-- The notices of compiling the members of a branch. -/
def memberNotices : List Node → List Notice
  | [] => []
  | node :: rest => nodeNotices node ++ memberNotices rest
termination_by structural nodes => nodes

end

mutual

/-- The notices of shaping a value: those of the literal envelopes around its content. -/
def shapeNotices : Value → List Notice
  | .record fields =>
    (Value.record fields).kindNotices ++
      if (Value.record fields).kind = .literal then contentNotices fields else []
  | _ => []
termination_by structural value => value

/-- The notices of shaping the content of an envelope. -/
def contentNotices : List (String × Value) → List Notice
  | [] => []
  | (key, value) :: rest => if key = "val" then shapeNotices value else contentNotices rest
termination_by structural fields => fields

end

/-- The notices of building the criteria of an operator map. -/
def criteriaNotices (fields : Fields) : List Notice :=
  (fields.filter fun field => FilterKey.isCriterion field.1).flatMap fun field =>
    shapeNotices field.2

mutual

/-- The notices of building a raw filter. -/
def buildNotices : Value → List Notice
  | .record fields =>
    if (Value.record fields).isAttributeFilter then criteriaNotices fields
    else if (Value.record fields).isGroupFilter then
      branchNotices .and fields ++ branchNotices .or fields ++ branchNotices .not fields
    else
      (fields.filter fun field => !FilterKey.isMapMetadata field.1 field.2).flatMap fun field =>
        criteriaNotices (field.2.record?.getD [])
  | _ => []
termination_by structural value => value

/-- The notices of building a branch among the fields of a group. -/
def branchNotices (branch : Connective) : List (String × Value) → List Notice
  | [] => []
  | (key, value) :: rest =>
    if key = branch.word then
      match value with
      | .list items => itemNotices items
      | _ => []
    else branchNotices branch rest
termination_by structural fields => fields

/-- The notices of building the members of a branch. -/
def itemNotices : List Value → List Notice
  | [] => []
  | value :: rest => buildNotices value ++ itemNotices rest
termination_by structural values => values

end

/-- The notices of compiling a filter in any shape. -/
def compileNotices (v : Value) : List Notice :=
  buildNotices v ++
    match buildNode none v with
    | .ok node => nodeNotices node
    | .error _ => []

end RecordQuery
