import RecordQuery.Value.Basic
/-!
# Shapes of raw filters

Clients describe a filter in one of three shapes: operators on one named attribute, a group of
filters in branches, or a map from attribute names to operator maps. Each shape has a predicate.
Keys that describe the filter instead of filtering are metadata, and belong to every shape.
-/

namespace RecordQuery

/-! ## Keys -/

namespace FilterKey

/-- The key of the attribute name. -/
def name : String := "attribute"

/-- The keys of metadata that are metadata whatever their values are. -/
def ownMetadata : List String := ["filterId", "filterLabel", "logicalOp"]

/-- The keys of metadata in their short form. -/
def shortMetadata : List String := ["id", "label"]

/-- The key holds metadata. -/
def isMetadata (key : String) : Bool :=
  ownMetadata.contains key || shortMetadata.contains key

/-- The key names a branch of a group. -/
def isBranch (key : String) : Bool :=
  (Connective.ofWord? key).isSome

theorem isBranch_word (c : Connective) : isBranch c.word = true := by
  rw [isBranch, Connective.ofWord?_word]
  rfl

theorem isBranch_eq_false {key : String} : isBranch key = false ↔ Connective.ofWord? key = none := by
  rw [isBranch, Option.isSome_eq_false_iff, Option.isNone_iff_eq_none]

/-- The key holds metadata of a map of attributes. The short keys are attributes there when they
hold an operator map. -/
def isMapMetadata (key : String) (value : Value) : Bool :=
  ownMetadata.contains key || (shortMetadata.contains key && !value.isRecord)

/-- The key is neither metadata nor the attribute name. -/
def isCriterion (key : String) : Bool :=
  !isMetadata key && key != name

end FilterKey

/-! ## Shapes -/

namespace Value

/-- A record with at least one operator among its keys. -/
def isCriteria : Value → Bool
  | record fields => fields.any fun field => Operator.isSpelling field.1
  | _ => false

/-- Operators on one named attribute. -/
def isAttributeFilter (v : Value) : Bool :=
  match v with
  | record fields => v.isCriteria && Fields.has fields FilterKey.name
  | _ => false

/-- A record with at least one branch that is a list, and only branches and metadata. -/
def isGroupFilter : Value → Bool
  | record fields =>
    (Connective.all.any fun branch => ((Fields.get? fields branch.word).getD null).isList) &&
      fields.all fun field => FilterKey.isBranch field.1 || FilterKey.isMetadata field.1
  | _ => false

/-- A map from attribute names to operator maps; without any attribute it is the empty filter. -/
def isEntityFilter : Value → Bool
  | record fields =>
    !Fields.has fields FilterKey.name &&
      fields.all fun field => FilterKey.isMapMetadata field.1 field.2 || field.2.isCriteria
  | _ => false

end Value

/-! ## Metadata -/

/-- The identifier and the label of a filter. -/
structure Tag where
  id : Value
  label : Value

namespace Tag

/-- The metadata of a record, where the long keys win over the short ones. -/
def ofFields (fields : Fields) : Tag :=
  ⟨((Fields.get? fields "filterId").or (Fields.get? fields "id")).getD .null,
    ((Fields.get? fields "filterLabel").or (Fields.get? fields "label")).getD .null⟩

/-- The metadata of a map of attributes. -/
def ofMap (fields : Fields) : Tag :=
  ofFields (fields.filter fun field => FilterKey.isMapMetadata field.1 field.2)

end Tag

end RecordQuery
