import RecordQuery.Fault
import RecordQuery.Value.Basic
/-!
# Looking up values

Which values can serve as keys of a map, and the fields of a value that has to be a map itself.
Lists and records can change, and neither they nor what holds them can be looked up.
-/

namespace RecordQuery

mutual

/-- The value can be looked up in a map. -/
def Value.isLookupKey : Value → Bool
  | .list _ => false
  | .record _ => false
  | .tuple items => Value.areLookupKeys items
  | .node n => n.isLookupKey
  | _ => true
termination_by structural value => value

/-- All values of a tuple can be looked up. -/
def Value.areLookupKeys : List Value → Bool
  | [] => true
  | value :: rest => value.isLookupKey && Value.areLookupKeys rest
termination_by structural values => values

/-- A group can be looked up when all it holds can; criteria never can. -/
def Node.isLookupKey : Node → Bool
  | .leaf .. => false
  | .group ands ors nots id label =>
    Node.areLookupKeys ands && Node.areLookupKeys ors && Node.areLookupKeys nots &&
      id.isLookupKey && label.isLookupKey
termination_by structural node => node

/-- All members of a branch can be looked up. -/
def Node.areLookupKeys : List Node → Bool
  | [] => true
  | node :: rest => node.isLookupKey && Node.areLookupKeys rest
termination_by structural nodes => nodes

end

/-- The fields of a value that has to be a record. -/
def Value.fields (v : Value) : Except Fault Fields :=
  match v with
  | .record fields => .ok fields
  | _ => .error .notRecord

end RecordQuery
