import RecordQuery.Error
import RecordQuery.Value.Lookup
/-!
# Expression surfaces

What a persistence layer offers to the compiler: a reference for each attribute, and functions that
write one comparison each. Comparisons go by roles; a surface may give the functions for them names
of its own.
-/

namespace RecordQuery

/-! ## Roles -/

/-- The tasks that the compiler hands to a surface. -/
inductive Role
  | equals
  | differs
  | greater
  | atLeast
  | less
  | atMost
  | between
  | begins
  | endsWith
  | contains
  | notContains
  | present
  | missing
  | reference
deriving DecidableEq, Repr

namespace Role

/-- Every role, in the order of the vocabulary. -/
def all : List Role :=
  [.equals, .differs, .greater, .atLeast, .less, .atMost, .between, .begins, .endsWith, .contains,
    .notContains, .present, .missing, .reference]

/-- The name of the function for a role, unless the surface renames it. -/
def name : Role → String
  | equals => "eq"
  | differs => "ne"
  | greater => "gt"
  | atLeast => "gte"
  | less => "lt"
  | atMost => "lte"
  | between => "between"
  | begins => "begins"
  | endsWith => "endsWith"
  | contains => "contains"
  | notContains => "notContains"
  | present => "exists"
  | missing => "notExists"
  | reference => "name"

end Role

/-! ## Surfaces -/

/-- A function that writes a comparison of its arguments. -/
abbrev Operation := List Value → String

/-- What a persistence layer offers: references, functions by name, and its own names for roles. -/
structure Surface where
  attributes : List (String × Value)
  operations : List (String × Operation)
  renamed : List (String × Value)

namespace Surface

/-- The name that the surface gives to a role. -/
def key (s : Surface) (role : Role) : Value :=
  (Fields.get? s.renamed role.name).getD (.text role.name)

/-- The entry of a map under a value; only texts have entries, and some values cannot even be looked
up. -/
def find? {α : Type} (entries : List (String × α)) (key : Value) : Except Fault (Option α) :=
  match key.text? with
  | some s => .ok (Fields.get? entries s)
  | none => if key.isLookupKey then .ok none else .error .wrongKind

/-- The reference of an attribute. -/
def referenceOf (s : Surface) (name : Value) : Except Error Value := do
  match ← liftFault (find? s.attributes name) with
  | some reference => return reference
  | none => .error (FilterError.missingAttribute name .null (Fields.keys s.attributes)).raised

/-- The function for a role, which an operator needs. -/
def operation (s : Surface) (role : Role) (op : Operator) : Except Error Operation := do
  let key := s.key role
  match ← liftFault (find? s.operations key) with
  | some f => return f
  | none => .error (FilterError.unsupported (.text op.name) key (Fields.keys s.operations)).raised

/-- The value that stands for the attribute that a reference names: its reference, written by the
surface's function for references when there is one. -/
def resolve (s : Surface) (name : Value) : Except Error Value := do
  let reference ← s.referenceOf name
  match ← liftFault (find? s.operations (s.key .reference)) with
  | some f => return .text (f [reference])
  | none => return reference

end Surface

end RecordQuery
