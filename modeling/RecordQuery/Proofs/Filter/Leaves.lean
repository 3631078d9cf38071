import RecordQuery.Value.Basic
/-!
# Leaves of canonical filters

A canonical filter is read from left to right as the list of its leaves, the branches of a group
being taken in the order `and`, `or`, `not`. What holds of every leaf, and which attributes and
operators a filter uses, is said through this list. `Node.memberInduction` is the induction over the
members of groups.
-/

namespace RecordQuery

/-! ## Induction -/

/-- What holds of leaves, and of groups of whose members it holds, holds of every filter. -/
@[elab_as_elim]
theorem Node.memberInduction {P : Node → Prop}
    (leaf : ∀ name criteria joiner id label, P (.leaf name criteria joiner id label))
    (group : ∀ ands ors nots id label, (∀ n ∈ ands, P n) → (∀ n ∈ ors, P n) → (∀ n ∈ nots, P n) →
      P (.group ands ors nots id label)) :
    ∀ n : Node, P n
  | .leaf name criteria joiner id label => leaf name criteria joiner id label
  | .group ands ors nots id label =>
    group ands ors nots id label (fun n _ => Node.memberInduction leaf group n)
      (fun n _ => Node.memberInduction leaf group n) (fun n _ => Node.memberInduction leaf group n)
termination_by n => sizeOf n
decreasing_by
  all_goals
    have hlt := List.sizeOf_lt_of_mem ‹n ∈ _›
    simp only [Node.group.sizeOf_spec]
    omega

/-! ## Leaves -/

/-- The conditions on one attribute that stand at a leaf. -/
structure Leaf where
  name : String
  criteria : Criteria
  joiner : Connective
  id : Value
  label : Value

/-- A leaf as a filter of its own. -/
def Leaf.toNode (l : Leaf) : Node :=
  .leaf l.name l.criteria l.joiner l.id l.label

/-- The uses of operators at a leaf, each with the name of the attribute. -/
def Leaf.uses (l : Leaf) : List (String × Operator) :=
  l.criteria.map fun criterion => (l.name, criterion.1)

namespace Node

mutual

/-- The leaves of a filter, from left to right. -/
def leaves : Node → List Leaf
  | .leaf name criteria joiner id label => [⟨name, criteria, joiner, id, label⟩]
  | .group ands ors nots _ _ => branchLeaves ands ++ branchLeaves ors ++ branchLeaves nots
termination_by structural n => n

/-- The leaves of the members of a branch, from left to right. -/
def branchLeaves : List Node → List Leaf
  | [] => []
  | n :: rest => n.leaves ++ branchLeaves rest
termination_by structural ns => ns

end

theorem branchLeaves_eq_flatMap (ns : List Node) : branchLeaves ns = ns.flatMap leaves := by
  induction ns with
  | nil => rfl
  | cons n rest ih => rw [branchLeaves, ih, List.flatMap_cons]

@[simp] theorem leaves_leaf (name : String) (criteria : Criteria) (joiner : Connective)
    (id label : Value) :
    (Node.leaf name criteria joiner id label).leaves = [⟨name, criteria, joiner, id, label⟩] := rfl

/-- The leaves of a group are those of its members. -/
@[simp] theorem leaves_group (ands ors nots : List Node) (id label : Value) :
    (Node.group ands ors nots id label).leaves =
      ands.flatMap leaves ++ ors.flatMap leaves ++ nots.flatMap leaves := by
  rw [leaves, branchLeaves_eq_flatMap, branchLeaves_eq_flatMap, branchLeaves_eq_flatMap]

/-- What holds of every leaf of a group holds of every leaf of its members. -/
theorem forall_leaves_group {P : Leaf → Prop} {ands ors nots : List Node} {id label : Value} :
    (∀ l ∈ (Node.group ands ors nots id label).leaves, P l) ↔
      (∀ n ∈ ands, ∀ l ∈ n.leaves, P l) ∧ (∀ n ∈ ors, ∀ l ∈ n.leaves, P l) ∧
        (∀ n ∈ nots, ∀ l ∈ n.leaves, P l) := by
  simp only [leaves_group, List.forall_mem_append, List.forall_mem_flatMap, and_assoc]

/-- The uses of operators in a filter, from left to right. -/
def uses (n : Node) : List (String × Operator) :=
  n.leaves.flatMap Leaf.uses

end Node

namespace Group

/-- The leaves of a group, from left to right. -/
def leaves (g : Group) : List Leaf :=
  g.toNode.leaves

/-- The uses of operators in a group, from left to right. -/
def uses (g : Group) : List (String × Operator) :=
  g.toNode.uses

/-- What holds of every leaf of a group holds of every leaf of the members of its branches. -/
theorem forall_leaves_toNode {P : Leaf → Prop} {g : Group} :
    (∀ l ∈ g.toNode.leaves, P l) ↔ ∀ branch, ∀ n ∈ g.branch branch, ∀ l ∈ n.leaves, P l := by
  rw [toNode, Node.forall_leaves_group]
  constructor
  · rintro ⟨hands, hors, hnots⟩ branch
    cases branch with
    | and => exact hands
    | or => exact hors
    | not => exact hnots
  · intro hall
    exact ⟨hall .and, hall .or, hall .not⟩

/-- A filter and the group that it stands for have the same leaves. -/
@[simp] theorem leaves_ofNode (n : Node) : (ofNode n).leaves = n.leaves := by
  cases n with
  | leaf name criteria joiner id label => simp [ofNode, leaves, toNode]
  | group ands ors nots id label => rfl

/-- A filter and the group that it stands for use the same operators. -/
@[simp] theorem uses_ofNode (n : Node) : (ofNode n).uses = n.uses :=
  congrArg (List.flatMap Leaf.uses) (leaves_ofNode n)

end Group

end RecordQuery
