import RecordQuery.Filter.Build
/-!
# Merging filters

Joining filters so that both have to hold, and the filter for a keyword search. A group takes a new
filter as the last member of its `and` branch and keeps all else; any other filter becomes the first
condition of a new group.
-/

namespace RecordQuery

/-! ## Conjunction -/

/-- The identifier of a group that was made by merging. -/
def mergedId : String := "_addFilterGroupToEntityFilterCriteria"

/-- The group with one more condition. -/
def Group.add (g : Group) (added : Node) : Group :=
  { g with ands := g.ands ++ [added] }

/-- A new group of the given conditions. -/
def mergedGroup (conditions : List Node) : Group :=
  { ands := conditions, id := .text mergedId }

/-- The filter with one more condition. -/
def Node.merge (existing added : Node) : Group :=
  match existing with
  | .group ands ors nots id label => (Group.mk ands ors nots id label).add added
  | condition => mergedGroup [condition, added]

/-- A group takes a condition into its `and` branch. -/
@[simp] theorem Node.merge_group (g : Group) (added : Node) :
    g.toNode.merge added = g.add added := rfl

/-- The raw filter `criteria` with the raw filter `added` as one more condition; without criteria,
the new group has that condition alone. A map of attributes is kept as one condition. -/
def mergeFilters (added criteria : Value) : Except FilterError Group := do
  let added ← buildNode none added
  match criteria with
  | .null => return mergedGroup [added]
  | _ => do
    let existing ← buildNode none criteria
    -- the group that a map of attributes stands for must not take in further conditions
    if criteria.isEntityFilter then return mergedGroup [existing, added]
    else return existing.merge added

/-- The group that demands both groups; a group without members demands nothing. -/
def Group.both (current extra : Group) : Group :=
  if extra.isEmpty then current else if current.isEmpty then extra else current.add extra.toNode

/-! ## Keyword search -/

/-- The identifier of the group of a keyword search. -/
def keywordSearchId : String := "keywordSearchFilterGroup"

/-- The filter for attributes of which one contains all keywords. -/
def keywordGroup (keywords : List Value) (names : List String) : Group :=
  { ors := names.map fun name => .leaf name [(.contains, .list keywords)] .and .null .null
    id := .text keywordSearchId }

end RecordQuery
