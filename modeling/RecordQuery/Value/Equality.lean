import RecordQuery.Value.Basic
/-!
# Equality of values and filters

Two values are the same when they are built alike, so an undefined number is the same as itself and
an integer differs from the equal floating-point number. `Value.same_iff` and `Node.same_iff` say
that the test decides equality.
-/

namespace RecordQuery

mutual

/-- The two values are the same. -/
def Value.same : Value → Value → Bool
  | .null, .null => true
  | .bool a, .bool b => a == b
  | .int a, .int b => a == b
  | .float a, .float b => a == b
  | .text a, .text b => a == b
  | .list as, .list bs => Value.sameItems as bs
  | .tuple as, .tuple bs => Value.sameItems as bs
  | .record as, .record bs => Value.sameFields as bs
  | .moment a, .moment b => a == b
  | .connective a, .connective b => a == b
  | .node a, .node b => a.same b
  | .deferred a, .deferred b => a.same b
  | _, _ => false
termination_by structural value => value

/-- The two lists hold the same values. -/
def Value.sameItems : List Value → List Value → Bool
  | [], [] => true
  | a :: as, b :: bs => a.same b && Value.sameItems as bs
  | _, _ => false
termination_by structural values => values

/-- The two records have the same fields in the same order. -/
def Value.sameFields : List (String × Value) → List (String × Value) → Bool
  | [], [] => true
  | (k, a) :: as, (l, b) :: bs => k == l && a.same b && Value.sameFields as bs
  | _, _ => false
termination_by structural fields => fields

/-- The two filters are the same. -/
def Node.same : Node → Node → Bool
  | .leaf name criteria joiner id label, .leaf name' criteria' joiner' id' label' =>
    name == name' && Node.sameCriteria criteria criteria' && joiner == joiner' && id.same id' &&
      label.same label'
  | .group ands ors nots id label, .group ands' ors' nots' id' label' =>
    Node.sameMembers ands ands' && Node.sameMembers ors ors' && Node.sameMembers nots nots' &&
      id.same id' && label.same label'
  | _, _ => false
termination_by structural node => node

/-- The two lists of criteria are the same. -/
def Node.sameCriteria : List (Operator × Value) → List (Operator × Value) → Bool
  | [], [] => true
  | (op, a) :: as, (op', b) :: bs => op == op' && a.same b && Node.sameCriteria as bs
  | _, _ => false
termination_by structural criteria => criteria

/-- The two branches have the same members. -/
def Node.sameMembers : List Node → List Node → Bool
  | [], [] => true
  | a :: as, b :: bs => a.same b && Node.sameMembers as bs
  | _, _ => false
termination_by structural nodes => nodes

end

mutual

/-- The test on values decides equality. -/
theorem Value.same_iff : ∀ a b : Value, a.same b = true ↔ a = b
  | .null, b => by cases b <;> simp [Value.same]
  | .bool _, b => by cases b <;> simp [Value.same]
  | .int _, b => by cases b <;> simp [Value.same]
  | .float _, b => by cases b <;> simp [Value.same]
  | .text _, b => by cases b <;> simp [Value.same]
  | .list as, b => by cases b <;> simp [Value.same, Value.sameItems_iff as]
  | .tuple as, b => by cases b <;> simp [Value.same, Value.sameItems_iff as]
  | .record as, b => by cases b <;> simp [Value.same, Value.sameFields_iff as]
  | .moment _, b => by cases b <;> simp [Value.same]
  | .connective _, b => by cases b <;> simp [Value.same]
  | .node a, b => by cases b <;> simp [Value.same, Node.same_iff a]
  | .deferred a, b => by cases b <;> simp [Value.same, Value.same_iff a]
termination_by structural value => value

/-- The test on lists decides equality. -/
theorem Value.sameItems_iff : ∀ as bs : List Value, Value.sameItems as bs = true ↔ as = bs
  | [], bs => by cases bs <;> simp [Value.sameItems]
  | a :: as, bs => by
    cases bs <;> simp [Value.sameItems, Value.same_iff a, Value.sameItems_iff as]
termination_by structural values => values

/-- The test on records decides equality. -/
theorem Value.sameFields_iff :
    ∀ as bs : List (String × Value), Value.sameFields as bs = true ↔ as = bs
  | [], bs => by cases bs <;> simp [Value.sameFields]
  | (k, a) :: as, bs => by
    cases bs <;> simp [Value.sameFields, Value.same_iff a, Value.sameFields_iff as, Prod.ext_iff]
termination_by structural fields => fields

/-- The test on filters decides equality. -/
theorem Node.same_iff : ∀ a b : Node, a.same b = true ↔ a = b
  | .leaf _ criteria _ id label, b => by
    cases b <;>
      simp [Node.same, Node.sameCriteria_iff criteria, Value.same_iff id, Value.same_iff label,
        and_assoc]
  | .group ands ors nots id label, b => by
    cases b <;>
      simp [Node.same, Node.sameMembers_iff ands, Node.sameMembers_iff ors,
        Node.sameMembers_iff nots, Value.same_iff id, Value.same_iff label, and_assoc]
termination_by structural node => node

/-- The test on criteria decides equality. -/
theorem Node.sameCriteria_iff :
    ∀ as bs : List (Operator × Value), Node.sameCriteria as bs = true ↔ as = bs
  | [], bs => by cases bs <;> simp [Node.sameCriteria]
  | (op, a) :: as, bs => by
    cases bs <;>
      simp [Node.sameCriteria, Value.same_iff a, Node.sameCriteria_iff as, Prod.ext_iff]
termination_by structural criteria => criteria

/-- The test on branches decides equality. -/
theorem Node.sameMembers_iff : ∀ as bs : List Node, Node.sameMembers as bs = true ↔ as = bs
  | [], bs => by cases bs <;> simp [Node.sameMembers]
  | a :: as, bs => by
    cases bs <;> simp [Node.sameMembers, Node.same_iff a, Node.sameMembers_iff as]
termination_by structural nodes => nodes

end

instance : DecidableEq Value := fun a b => decidable_of_iff _ (Value.same_iff a b)

instance : DecidableEq Node := fun a b => decidable_of_iff _ (Node.same_iff a b)

instance : DecidableEq Group := fun a b =>
  decidable_of_iff (a.toNode = b.toNode)
    ⟨fun h => by rw [← Group.ofNode_toNode a, h, Group.ofNode_toNode], fun h => by rw [h]⟩

end RecordQuery
