import RecordQuery.Schema.Basic
/-!
# Reading schemas

Schemas from data, with every fault of a model reported at its place. Whatever is wrong at or below
the identifiers of a relation counts as one fault. Fields without a rule are ignored.
-/

namespace RecordQuery.Schema

/-- The result of reading a model: the faults that were found, or the model. -/
abbrev Reading (α : Type) := Except (List Issue) α

/-- Two models read side by side, with the faults of both. -/
def both {α β : Type} (a : Reading α) (b : Reading β) : Reading (α × β) :=
  match a, b with
  | .ok a, .ok b => .ok (a, b)
  | .error issues, .error more => .error (issues ++ more)
  | .error issues, .ok _ => .error issues
  | .ok _, .error issues => .error issues

/-- Models read one by one, with the faults of all. -/
def eachOf {α β : Type} (read : α → Reading β) : List α → Reading (List β)
  | [] => .ok []
  | a :: rest => (both (read a) (eachOf read rest)).map fun (b, bs) => b :: bs

/-- A fault of the model itself. -/
def fault {α : Type} (kind : String) : Reading α :=
  .error [⟨[], kind⟩]

/-- The faults of a model moved to the place where the model stands. -/
def under {α : Type} (place : String) : Reading α → Reading α
  | .ok a => .ok a
  | .error issues => .error (issues.map fun issue => ⟨place :: issue.place, issue.kind⟩)

/-! ## Fields -/

/-- A text. -/
def readText (v : Value) : Reading String :=
  match v.text? with
  | some s => .ok s
  | none => fault "string_type"

/-- A field that has to be there. -/
def required {α : Type} (fields : Fields) (key : String) (read : Value → Reading α) : Reading α :=
  under key (match Fields.get? fields key with
    | some v => read v
    | none => fault "missing")

/-- A field that has a default. -/
def optional {α : Type} (fields : Fields) (key : String) (default : α) (read : Value → Reading α) :
    Reading α :=
  under key (match Fields.get? fields key with
    | some v => read v
    | none => .ok default)

/-- The fields of a model. -/
def readModel {α : Type} (read : Fields → Reading α) (v : Value) : Reading α :=
  match v with
  | .record fields => read fields
  | _ => fault "model_type"

/-- A model or its absence. -/
def readNullable {α : Type} (read : Value → Reading α) (v : Value) : Reading (Option α) :=
  match v with
  | .null => .ok none
  | v => (read v).map some

/-- A list of texts. -/
def readTexts (v : Value) : Reading (List String) :=
  match v.items? with
  | some items => eachOf (fun (v, i) => under (toString i) (readText v)) items.zipIdx
  | none => fault "list_type"

/-! ## Relations -/

/-- A pair of identifiers. -/
def readPair : Value → Reading IdentifierPair :=
  readModel fun fields =>
    (both (required fields "source" readText) (required fields "target" readText)).map
      fun (source, target) => ⟨source, target⟩

/-- The identifiers of a relation: one pair, several, or a function that gives them. -/
def readIdentifiers (v : Value) : Reading Identifiers :=
  -- the alternatives have faults of their own, which are not told apart
  let result : Reading Identifiers :=
    match v with
    | .deferred answer => .ok (.deferred answer)
    | v =>
      match v.items? with
      | some items => (eachOf readPair items).map .given
      | none => (readPair v).map fun pair => .given [pair]
  match result with
  | .ok identifiers => .ok identifiers
  | .error _ => fault "invalid"

/-- The cardinality of a relation. -/
def readCardinality (v : Value) : Reading Cardinality :=
  match v.text?.bind Cardinality.ofWord? with
  | some c => .ok c
  | none => fault "literal_error"

/-- The entity of a relation, under either of two names of which the first wins. -/
def readEntityName (fields : Fields) : Reading String :=
  if !Fields.has fields "entityName" && Fields.has fields "entity_name" then
    required fields "entity_name" readText
  else required fields "entityName" readText

/-- The identifiers of the fields of a relation; missing ones are no valid ones. -/
def readIdentifiersOf (fields : Fields) : Reading Identifiers :=
  under "identifiers" (readIdentifiers ((Fields.get? fields "identifiers").getD .null))

/-- A relation, from many to one unless it says otherwise. -/
def readRelation : Value → Reading Relation :=
  readModel fun fields =>
    (both (both (readEntityName fields)
        (optional fields "type" Cardinality.manyToOne readCardinality))
      (both (readIdentifiersOf fields)
        (optional fields "attributes" none (readNullable readTexts)))).map
      fun ((entity, cardinality), (identifiers, attributes)) =>
        ⟨entity, cardinality, identifiers, attributes⟩

/-- The pairs of a relation. The answer of a function is one pair or several. -/
def resolveIdentifiers (relation : Relation) : Reading (List IdentifierPair) :=
  match relation.identifiers with
  | .given pairs => .ok pairs
  | .deferred answer => (answer.items?.getD [answer]).mapM readPair

/-! ## Entities -/

/-- An attribute; its type is a text unless it says otherwise. -/
def readAttribute : Value → Reading AttributeDefinition :=
  readModel fun fields =>
    (both (optional fields "type" "string" readText)
      (optional fields "relation" none (readNullable readRelation))).map
      fun (type, relation) => ⟨type, relation⟩

/-- The attributes of an entity. -/
def readAttributes (v : Value) : Reading (List (String × AttributeDefinition)) :=
  match v with
  | .record fields =>
    eachOf (fun (name, v) => under name ((readAttribute v).map fun a => (name, a))) fields
  | _ => fault "dict_type"

/-- The schema of an entity. -/
def read : Value → Reading Schema :=
  readModel fun fields =>
    (both (required fields "name" readText)
      (optional fields "attributes" [] readAttributes)).map
      fun (name, attributes) => ⟨name, attributes⟩

end RecordQuery.Schema

namespace RecordQuery

/-- The faults of a model are an error. -/
def liftReading {α : Type} : Schema.Reading α → Except Error α
  | .ok a => .ok a
  | .error issues => .error (.model issues)

namespace Registry

/-- The schema data with the name it is listed under, unless it has a name of its own. -/
def withName (name : String) : Value → Value
  | .record fields =>
    if Fields.has fields "name" then .record fields
    else .record (fields ++ [("name", .text name)])
  | v => v

/-- The registry with further schemas from data. -/
def addAll (r : Registry) : List Value → Except Error Registry
  | [] => .ok r
  | v :: rest => do
    let schema ← liftReading (Schema.read v)
    addAll (r.register schema) rest

/-- The registry of schemas from data: a map from names to schemas, or several schemas. -/
def ofValue (v : Value) : Except Error Registry :=
  match v with
  | .record fields => empty.addAll (fields.map fun field => withName field.1 field.2)
  | v =>
    if !v.truthy then .ok empty
    else
      match v.elements? with
      | some elements => empty.addAll elements
      | none => .error (.fault .wrongKind)

end Registry

end RecordQuery
