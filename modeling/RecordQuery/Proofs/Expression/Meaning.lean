import Mathlib.Data.List.ReduceOption
import RecordQuery.Expression.Compile
import RecordQuery.Proofs.Filter.Leaves
/-!
# The meaning of filters and of expressions

An assignment says of every fragment of text whether it holds. Under an assignment an expression is
true or false (`Expr.value`), and a filter is true, false or without demand (`Node.value`): an empty
group, or an operator on an empty list, asks for nothing and is left out wherever it stands. The
meaning of a filter is defined on the filter itself, and knows expressions only as the fragments
that a surface returns for its criteria.
-/

namespace RecordQuery

/-! ## Joining truths and demands -/

namespace Connective

/-- The truth of joined conditions; joined by `not`, none of them may hold. -/
def combine : Connective → List Bool → Bool
  | and, truths => truths.all id
  | or, truths => truths.any id
  | not, truths => !truths.any id

/-- The demand of joined demands. Those that ask for nothing are left out, and when none is left the
join asks for nothing either. -/
def demand (c : Connective) (demands : List (Option Bool)) : Option Bool :=
  match demands.reduceOption with
  | [] => none
  | truths => some (c.combine truths)

/-- Demands of which each asks for something are joined by their truths. -/
theorem demand_map_some (c : Connective) {truths : List Bool} (h : truths ≠ []) :
    c.demand (truths.map some) = some (c.combine truths) := by
  have hmap : (truths.map some).reduceOption = truths := by
    rw [List.reduceOption, List.filterMap_map]
    exact List.filterMap_some
  rw [demand, hmap]
  cases truths with
  | nil => exact absurd rfl h
  | cons _ _ => rfl

/-- Joining nothing asks for nothing. -/
@[simp] theorem demand_nil (c : Connective) : c.demand [] = none := rfl

/-- What asks for nothing is left out of a join. -/
theorem demand_none_cons (c : Connective) (demands : List (Option Bool)) :
    c.demand (none :: demands) = c.demand demands := by
  rw [demand, demand, List.reduceOption_cons_of_none]

end Connective

/-! ## Filters -/

/-- How the values of an operator belong together: for membership in a list and for containing some
of a list any of them will do, and every other operator asks for all. -/
def Operator.quantifier : Operator → Connective
  | .oneOf | .containsSome => .or
  | _ => .and

namespace Node

mutual

/-- The truth of a filter when it is known what each criterion on an attribute asks for. -/
def value (holds : String → Operator → Value → Option Bool) : Node → Option Bool
  | .leaf name criteria joiner _ _ =>
    joiner.demand (criteria.map fun criterion => holds name criterion.1 criterion.2)
  | .group ands ors nots _ _ =>
    Connective.and.demand
      [Connective.and.demand (branchValues holds ands), Connective.or.demand (branchValues holds ors),
        Connective.not.demand (branchValues holds nots)]
termination_by structural n => n

/-- The truths of the members of a branch. -/
def branchValues (holds : String → Operator → Value → Option Bool) : List Node → List (Option Bool)
  | [] => []
  | n :: rest => n.value holds :: branchValues holds rest
termination_by structural ns => ns

end

theorem branchValues_eq_map (holds : String → Operator → Value → Option Bool) (ns : List Node) :
    branchValues holds ns = ns.map (value holds) := by
  induction ns with
  | nil => rfl
  | cons n rest ih => rw [branchValues, ih, List.map_cons]

theorem value_leaf (holds : String → Operator → Value → Option Bool) (name : String)
    (criteria : Criteria) (joiner : Connective) (id label : Value) :
    (Node.leaf name criteria joiner id label).value holds =
      joiner.demand (criteria.map fun criterion => holds name criterion.1 criterion.2) := rfl

/-- A group asks for all of its `and` members, any of its `or` members and none of its `not`
members. -/
theorem value_group (holds : String → Operator → Value → Option Bool) (ands ors nots : List Node)
    (id label : Value) :
    (Node.group ands ors nots id label).value holds =
      Connective.and.demand
        [Connective.and.demand (ands.map (value holds)),
          Connective.or.demand (ors.map (value holds)),
          Connective.not.demand (nots.map (value holds))] := by
  rw [value, branchValues_eq_map, branchValues_eq_map, branchValues_eq_map]

end Node

/-! ## Fragments -/

namespace Surface

/-- The fragments that the surface returns for a criterion, in order: one for each value of an
operator on several values, and a single one for every other operator. -/
def fragmentsOf (s : Surface) (reference : Value) (op : Operator) (v : Value) :
    Except Error (List String) :=
  match op.plan with
  | .single role => do
    let f ← s.operation role op
    let value ← operand s op v
    return [f [reference, value]]
  | .each role _ => do
    let f ← s.operation role op
    let values ← v.unwrap.toItems.mapM (operand s op)
    return values.map fun value => f [reference, value]
  | .range => do
    let f ← s.operation .between op
    let (low, high) ← liftFilter v.unwrap.toRange
    let low ← operand s op low
    let high ← operand s op high
    return [f [reference, low, high]]
  | .presence => do
    let f ← s.operation (if v.unwrap.truthy then .present else .missing) op
    return [f [reference]]
  | .emptiness => do
    let f ← s.operation (if v.unwrap.truthy then .equals else .differs) op
    return [f [reference, .text ""]]

/-- The fragments for a criterion on a named attribute; there are none when the surface lacks what
the criterion needs. -/
def fragments (s : Surface) (name : String) (op : Operator) (v : Value) : List String :=
  match s.referenceOf (.text name) >>= fun reference => s.fragmentsOf reference op v with
  | .ok texts => texts
  | .error _ => []

/-- What a criterion asks for under an assignment of its fragments. -/
def holds (s : Surface) (assignment : String → Bool) (name : String) (op : Operator) (v : Value) :
    Option Bool :=
  op.quantifier.demand ((s.fragments name op v).map fun fragment => some (assignment fragment))

end Surface

/-- The fragments that a surface returns for a leaf, in the order of its criteria. -/
def Leaf.fragments (s : Surface) (l : Leaf) : List String :=
  l.criteria.flatMap fun criterion => s.fragments l.name criterion.1 criterion.2

/-- The fragments that a surface returns for a filter, from left to right. -/
def Node.fragments (s : Surface) (n : Node) : List String :=
  n.leaves.flatMap (Leaf.fragments s)

/-- The fragments of a group are those of its members. -/
theorem Node.fragments_group (s : Surface) (ands ors nots : List Node) (id label : Value) :
    (Node.group ands ors nots id label).fragments s =
      ands.flatMap (fragments s) ++ ors.flatMap (fragments s) ++ nots.flatMap (fragments s) := by
  unfold fragments
  rw [leaves_group, List.flatMap_append, List.flatMap_append, List.flatMap_assoc,
    List.flatMap_assoc, List.flatMap_assoc]

/-! ## Expressions -/

namespace Expr

mutual

/-- The truth of an expression under an assignment of its fragments. -/
def value (assignment : String → Bool) : Expr → Bool
  | atom fragment => assignment fragment
  | negation operand => !operand.value assignment
  | join connective operands => connective.combine (values assignment operands)
termination_by structural e => e

/-- The truths of the operands of a join. -/
def values (assignment : String → Bool) : List Expr → List Bool
  | [] => []
  | operand :: rest => operand.value assignment :: values assignment rest
termination_by structural operands => operands

end

theorem values_eq_map (assignment : String → Bool) (operands : List Expr) :
    values assignment operands = operands.map (value assignment) := by
  induction operands with
  | nil => rfl
  | cons operand rest ih => rw [values, ih, List.map_cons]

theorem value_join (assignment : String → Bool) (c : Connective) (operands : List Expr) :
    (join c operands).value assignment = c.combine (operands.map (value assignment)) := by
  rw [value, values_eq_map]

mutual

/-- The fragments of an expression from left to right; the blank one has none. -/
def atoms : Expr → List String
  | atom fragment => if fragment = "" then [] else [fragment]
  | negation operand => operand.atoms
  | join _ operands => atomsOf operands
termination_by structural e => e

/-- The fragments of the operands of a join. -/
def atomsOf : List Expr → List String
  | [] => []
  | operand :: rest => operand.atoms ++ atomsOf rest
termination_by structural operands => operands

end

theorem atomsOf_eq_flatMap (operands : List Expr) : atomsOf operands = operands.flatMap atoms := by
  induction operands with
  | nil => rfl
  | cons operand rest ih => rw [atomsOf, ih, List.flatMap_cons]

theorem atoms_join (c : Connective) (operands : List Expr) :
    (join c operands).atoms = operands.flatMap atoms := by
  rw [atoms, atomsOf_eq_flatMap]

/-- A proper expression: its fragments are not empty, and it joins two or more operands by `and` or
by `or`. -/
inductive Proper : Expr → Prop
  | atom {fragment : String} : fragment ≠ "" → Proper (.atom fragment)
  | negation {operand : Expr} : Proper operand → Proper (.negation operand)
  | join {c : Connective} {operands : List Expr} : c ≠ .not → 2 ≤ operands.length →
      (∀ operand ∈ operands, Proper operand) → Proper (.join c operands)

/-- A proper expression has a fragment. -/
theorem Proper.atoms_ne_nil {e : Expr} (h : e.Proper) : e.atoms ≠ [] := by
  induction h with
  | atom h => simp [atoms, h]
  | negation _ ih => exact ih
  | @join c operands _ hlen _ ih =>
      match operands, hlen with
      | operand :: rest, _ =>
        rw [atoms_join, List.flatMap_cons]
        exact fun h => ih operand List.mem_cons_self (List.append_eq_nil_iff.mp h).1

/-- What an expression asks for: nothing when it is blank, and its truth otherwise. -/
def demand (assignment : String → Bool) (e : Expr) : Option Bool :=
  if e.isBlank then none else some (e.value assignment)

end Expr

end RecordQuery
