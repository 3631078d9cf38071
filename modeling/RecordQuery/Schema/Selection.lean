import RecordQuery.Schema.Reading
import RecordQuery.Text.Blank
import RecordQuery.Text.Split
/-!
# Selections

Which attributes of an entity to read, and what to read of the entities it is related to. Requested
paths form a tree; resolving it follows relations to the schemas of their targets. On one descent no
entity is entered twice and no more than a given number of relations is entered: a relation that
would is cut off and only names its target.
-/

namespace RecordQuery

/-! ## Requests -/

/-- What is wanted of an attribute: the whole of it, or parts of what it relates to. -/
inductive Wanted
  | whole
  | parts (entries : List (String × Wanted))

namespace Wanted

/-- The entries with one more path wanted. A path that ends where parts are wanted already adds
nothing, and one that goes on where the whole was wanted replaces it. -/
def insert : List String → List (String × Wanted) → List (String × Wanted)
  | [], entries => entries
  | name :: rest, entries =>
    match rest, Fields.get? entries name with
    -- parts win over the whole, in either order of the paths
    | [], some (.parts _) => entries
    | [], _ => Fields.set entries name .whole
    | rest, some (.parts inner) => Fields.set entries name (.parts (insert rest inner))
    | rest, _ => Fields.set entries name (.parts (insert rest []))

/-- The names on a dotted path. -/
def namesOf (path : String) : List String :=
  Text.splitRuns (· == '.') (Text.trim path)

/-- The tree of dotted paths. -/
def ofPaths (paths : List String) : List (String × Wanted) :=
  paths.foldl (fun entries path => insert (namesOf path) entries) []

mutual

/-- What a value wants of an attribute; one that counts as false wants nothing. -/
def ofValue? : Value → Option Wanted
  | .record fields => if fields.isEmpty then none else some (.parts (ofFields fields))
  | v => if v.truthy then some .whole else none
termination_by structural value => value

/-- What a record wants of the attributes it names. -/
def ofFields : List (String × Value) → List (String × Wanted)
  | [] => []
  | (name, value) :: rest =>
    match ofValue? value with
    | some wanted => (name, wanted) :: ofFields rest
    | none => ofFields rest
termination_by structural fields => fields

end

mutual

/-- The value of a request. -/
def toValue : Wanted → Value
  | whole => .bool true
  | parts entries => .record (toFields entries)
termination_by structural wanted => wanted

/-- The fields of a request tree. -/
def toFields : List (String × Wanted) → List (String × Value)
  | [] => []
  | (name, wanted) :: rest => (name, wanted.toValue) :: toFields rest
termination_by structural entries => entries

end

/-- The texts among the elements of a value, all of which have to be texts. -/
def pathTexts (v : Value) : Except Fault (List String) :=
  match v.elements? with
  | some elements =>
    elements.mapM fun element =>
      match element.text? with
      | some s => .ok s
      | none => .error .notText
  | none => .error .wrongKind

/-- The request that a value makes: a tree as it stands, or dotted paths. -/
def read (v : Value) : Except Fault (List (String × Wanted)) :=
  match v with
  | .record fields => .ok (ofFields fields)
  | v => (pathTexts v).map ofPaths

end Wanted

/-! ## Results -/

/-- What to read of an attribute. -/
inductive Selected
  /-- The attribute itself. -/
  | plain
  /-- A relation that is not entered. -/
  | truncated (entity : String)
  /-- A relation that is entered, with what to read of its target. -/
  | related (entity : String) (cardinality : Cardinality) (identifiers : List IdentifierPair)
      (attributes : List (String × Selected))

namespace Selected

/-- The record of a pair of identifiers. -/
def pairValue (pair : IdentifierPair) : Value :=
  .record [("source", .text pair.source), ("target", .text pair.target)]

mutual

/-- The value of a selection. -/
def toValue : Selected → Value
  | plain => .bool true
  | truncated entity => .record [("entityName", .text entity), ("skippedDueToCycle", .bool true)]
  | related entity cardinality identifiers attributes =>
    .record [("entityName", .text entity), ("relationType", .text cardinality.word),
      ("identifiers", .list (identifiers.map pairValue)),
      ("attributes", .record (toFields attributes))]
termination_by structural selected => selected

/-- The record of selected attributes. -/
def toFields : List (String × Selected) → List (String × Value)
  | [] => []
  | (name, selected) :: rest => (name, selected.toValue) :: toFields rest
termination_by structural entries => entries

end

end Selected

/-! ## Resolving -/

/-- The number of relations that may be entered on one descent, unless another one is given. -/
def defaultMaxDepth : Int := 5

/-- What is wanted of the target of a relation: the requested parts or, for the whole, the
attributes that the relation declares, or else the plain attributes of the target. -/
def wantedOf (relation : Relation) (target : Schema) : Wanted → List (String × Wanted)
  | .parts entries => entries
  | .whole =>
    let declared := relation.attributes.getD []
    let names := if declared.isEmpty then target.plainNames else declared
    names.eraseDups.map fun name => (name, .whole)

/-- A way to select the requested attributes of an entity when some entities were visited before. -/
abbrev Resolver := Schema → List String → List (String × Wanted) →
  Except Error (List (String × Selected))

/-- The selection of one requested attribute of an entity. Relations to entities that are not in
`visited` are entered by `enter`, or cut off when no further relation may be entered. -/
def resolveEntry (r : Registry) (enter : Option Resolver) (schema : Schema) (visited : List String)
    (name : String) (wanted : Wanted) : Except Error (String × Selected) :=
  match schema.attribute? name with
  | none =>
    .error (.filter (.missingAttribute (.text name) (.text schema.name)
      (Fields.keys schema.attributes)))
  | some definition =>
    match definition.relation, enter with
    | none, _ => .ok (name, .plain)
    -- a relation is cut off before its target is looked up
    | some relation, none => .ok (name, .truncated relation.entity)
    | some relation, some enter =>
      if visited.contains relation.entity then .ok (name, .truncated relation.entity)
      else
        match r.schema? relation.entity with
        | none =>
          .error (.filter (.unknownEntity (.text relation.entity) (.text name) (.text schema.name)))
        | some target => do
          let pairs ← liftReading (Schema.resolveIdentifiers relation)
          -- the target joins the visited entities of this descent only
          let attributes ← enter target (relation.entity :: visited)
            (wantedOf relation target wanted)
          return (name, .related relation.entity relation.cardinality pairs attributes)

/-- The selection of the requested attributes of an entity, where `depth` further relations may be
entered and the entities of `visited` may not. -/
def resolve (r : Registry) : (depth : Nat) → Resolver
  | 0, schema, visited, entries =>
    entries.mapM fun (name, wanted) => resolveEntry r none schema visited name wanted
  | depth + 1, schema, visited, entries =>
    entries.mapM fun (name, wanted) =>
      resolveEntry r (some (resolve r depth)) schema visited name wanted

/-- The selection of the requested attributes of an entity. -/
def inferSelections (r : Registry) (maxDepth : Int) (schema : Schema) (visited : List String)
    (entries : List (String × Wanted)) : Except Error (List (String × Selected)) :=
  resolve r maxDepth.toNat schema visited entries

end RecordQuery
