import RecordQuery.Value.Basic
/-!
# Canonical filters as data

The record that a canonical filter is saved as. It has the shape of a raw filter again: core
operator names are its keys, what is absent or the default is left out, and tuples become lists.
-/

namespace RecordQuery

/-! ## Values -/

mutual

/-- The value with every tuple turned into a list. -/
def Value.plain : Value → Value
  | .list items => .list (Value.plainItems items)
  | .tuple items => .list (Value.plainItems items)
  | .record fields => .record (Value.plainFields fields)
  | v => v
termination_by structural value => value

/-- The items of a list, each with every tuple turned into a list. -/
def Value.plainItems : List Value → List Value
  | [] => []
  | value :: rest => value.plain :: Value.plainItems rest
termination_by structural values => values

/-- The fields of a record, each with every tuple turned into a list. -/
def Value.plainFields : List (String × Value) → List (String × Value)
  | [] => []
  | (key, value) :: rest => (key, value.plain) :: Value.plainFields rest
termination_by structural fields => fields

end

/-- The items of a list are made plain one by one. -/
theorem Value.plainItems_eq_map (items : List Value) :
    Value.plainItems items = items.map Value.plain := by
  induction items with
  | nil => rfl
  | cons value rest ih => simp [Value.plainItems, ih]

/-! ## Filters -/

/-- The fields for the identifier and the label, as far as they are present. -/
def tagFields (id label : Value) : Fields :=
  (if id.isNull then [] else [("filterId", id)]) ++
    (if label.isNull then [] else [("filterLabel", label)])

/-- The fields for criteria. -/
def criteriaFields (criteria : Criteria) : Fields :=
  criteria.map fun criterion => (criterion.1.name, criterion.2.plain)

/-- The field for a connective other than conjunction. -/
def joinerFields (joiner : Connective) : Fields :=
  if joiner = .and then [] else [("logicalOp", .text joiner.word)]

/-- The field for a branch that has members. -/
def branchFields (branch : Connective) (members : List Value) : Fields :=
  if members.isEmpty then [] else [(branch.word, .list members)]

mutual

/-- The record of a canonical filter. -/
def Node.toValue : Node → Value
  | .leaf name criteria joiner id label =>
    .record (("attribute", .text name) :: criteriaFields criteria ++ joinerFields joiner ++
      tagFields id label)
  | .group ands ors nots id label =>
    .record (tagFields id label ++ branchFields .and (Node.toValues ands) ++
      branchFields .or (Node.toValues ors) ++ branchFields .not (Node.toValues nots))
termination_by structural node => node

/-- The records of the members of a branch. -/
def Node.toValues : List Node → List Value
  | [] => []
  | node :: rest => node.toValue :: Node.toValues rest
termination_by structural nodes => nodes

end

/-- The members of a branch become records one by one. -/
theorem Node.toValues_eq_map (nodes : List Node) :
    Node.toValues nodes = nodes.map Node.toValue := by
  induction nodes with
  | nil => rfl
  | cons node rest ih => simp [Node.toValues, ih]

/-- The record of a group. -/
def Group.toValue (g : Group) : Value :=
  g.toNode.toValue

end RecordQuery
