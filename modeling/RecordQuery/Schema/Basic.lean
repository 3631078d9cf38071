import RecordQuery.Error
/-!
# Schemas

The entities of a data model: their attributes, the relations that lead from one entity to another,
and how the two sides of a relation are identified. A registry holds the schemas by name.
-/

namespace RecordQuery

/-! ## Relations -/

/-- How many entities stand on the two sides of a relation. -/
inductive Cardinality
  | oneToOne
  | oneToMany
  | manyToOne
  | manyToMany
deriving DecidableEq, Repr

namespace Cardinality

/-- Every cardinality. -/
def all : List Cardinality := [.oneToOne, .oneToMany, .manyToOne, .manyToMany]

/-- The word for a cardinality. -/
def word : Cardinality → String
  | oneToOne => "one-to-one"
  | oneToMany => "one-to-many"
  | manyToOne => "many-to-one"
  | manyToMany => "many-to-many"

/-- The cardinality of a word. -/
def ofWord? (s : String) : Option Cardinality :=
  all.find? fun c => c.word == s

end Cardinality

/-- The attribute of the owner and the attribute of the target that have to agree. -/
structure IdentifierPair where
  source : String
  target : String
deriving DecidableEq, Repr

/-- How the two sides of a relation are identified: by given pairs, or by the answer of a function
that is asked when the relation is used. -/
inductive Identifiers
  | given (pairs : List IdentifierPair)
  | deferred (answer : Value)

/-- A relation to another entity. -/
structure Relation where
  entity : String
  cardinality : Cardinality
  identifiers : Identifiers
  attributes : Option (List String)

/-! ## Entities -/

/-- An attribute of an entity. -/
structure AttributeDefinition where
  type : String
  relation : Option Relation

/-- An entity with its attributes, in order. -/
structure Schema where
  name : String
  attributes : List (String × AttributeDefinition)

namespace Schema

/-- The attributes that are no relations, in order. -/
def plainNames (s : Schema) : List String :=
  (s.attributes.filter fun entry => entry.2.relation.isNone).map (·.1)

/-- The definition of an attribute. -/
def attribute? (s : Schema) (name : String) : Option AttributeDefinition :=
  Fields.get? s.attributes name

end Schema

/-! ## Registries -/

/-- The schemas of a data model by entity name. -/
structure Registry where
  schemas : List (String × Schema)

namespace Registry

/-- The registry without schemas. -/
def empty : Registry := ⟨[]⟩

/-- The schema of an entity. -/
def schema? (r : Registry) (entity : String) : Option Schema :=
  Fields.get? r.schemas entity

/-- The entity is registered. -/
def has (r : Registry) (entity : String) : Bool :=
  (r.schema? entity).isSome

/-- The schema of an entity that has to be registered. -/
def schema (r : Registry) (entity : String) : Except Fault Schema :=
  match r.schema? entity with
  | some s => .ok s
  | none => .error .unregistered

/-- The number of registered entities. -/
def size (r : Registry) : Nat :=
  r.schemas.length

/-- The registry with a schema under its own name, in the place of an earlier one of that name. -/
def register (r : Registry) (s : Schema) : Registry :=
  ⟨Fields.set r.schemas s.name s⟩

end Registry

end RecordQuery
