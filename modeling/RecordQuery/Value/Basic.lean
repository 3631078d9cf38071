import RecordQuery.Calendar.Moment
import RecordQuery.Number.Binary64
import RecordQuery.Operator
import RecordQuery.Text.CodePoint
/-!
# Values and filter trees

`Value` is the data that clients send and that filters compare with; `Node` is the canonical filter
tree. They are defined together because a raw filter may hold ready nodes among its other data.
Records keep the order of their fields; `Fields.get?_set_self` and `Fields.get?_set_of_ne` say that
setting a field changes that field alone. Texts are stored as `Text.ofCodePoints` stores them.
-/

namespace RecordQuery

mutual

/-- A piece of client data. -/
inductive Value
  | null
  | bool (b : Bool)
  | int (n : Int)
  | float (x : Binary64)
  | text (s : String)
  | list (items : List Value)
  | tuple (items : List Value)
  | record (fields : List (String × Value))
  | moment (m : Moment)
  | connective (c : Connective)
  | node (n : Node)
  | deferred (answer : Value)

/-- A canonical filter: conditions on one attribute, or a group of filters in three branches. -/
inductive Node
  | leaf (name : String) (criteria : List (Operator × Value)) (joiner : Connective)
      (id label : Value)
  | group (ands ors nots : List Node) (id label : Value)

end

instance : Inhabited Value := ⟨.null⟩

instance : Inhabited Node := ⟨.group [] [] [] .null .null⟩

/-- The fields of a record, in order. -/
abbrev Fields := List (String × Value)

/-- The criteria on one attribute, in order. -/
abbrev Criteria := List (Operator × Value)

/-! ## Fields -/

namespace Fields

variable {α : Type}

/-- The value of a field. -/
def get? (fields : List (String × α)) (key : String) : Option α :=
  fields.lookup key

/-- The field is present. -/
def has (fields : List (String × α)) (key : String) : Bool :=
  (get? fields key).isSome

/-- The names of the fields, in order. -/
def keys (fields : List (String × α)) : List String :=
  fields.map (·.1)

/-- The record with a field set: in its place when it is present, and at the end otherwise. -/
def set (fields : List (String × α)) (key : String) (value : α) : List (String × α) :=
  match fields with
  | [] => [(key, value)]
  | (k, v) :: rest => if k = key then (k, value) :: rest else (k, v) :: set rest key value

/-- The record that holds the given fields, a later one overwriting an earlier one of its name. -/
def ofList (entries : List (String × α)) : List (String × α) :=
  entries.foldl (fun fields entry => set fields entry.1 entry.2) []

@[simp] theorem get?_nil (key : String) : get? ([] : List (String × α)) key = none := rfl

theorem get?_cons (k : String) (v : α) (rest : List (String × α)) (key : String) :
    get? ((k, v) :: rest) key = if key = k then some v else get? rest key := by
  by_cases h : key = k
  · simp [get?, h]
  · have hb : (key == k) = false := beq_eq_false_iff_ne.2 h
    simp [get?, List.lookup_cons, h, hb]

/-- A field that has been set has the new value. -/
theorem get?_set_self (fields : List (String × α)) (key : String) (value : α) :
    get? (set fields key value) key = some value := by
  induction fields with
  | nil => simp [set, get?_cons]
  | cons entry rest ih =>
      obtain ⟨k, v⟩ := entry
      by_cases h : k = key
      · simp [set, h, get?_cons]
      · have h' : ¬key = k := fun e => h e.symm
        simp [set, h, h', get?_cons, ih]

/-- Setting a field leaves the others as they are. -/
theorem get?_set_of_ne (fields : List (String × α)) {key other : String} (value : α)
    (h : other ≠ key) : get? (set fields key value) other = get? fields other := by
  induction fields with
  | nil => simp [set, get?_cons, h]
  | cons entry rest ih =>
      obtain ⟨k, v⟩ := entry
      by_cases hk : k = key
      · subst hk
        simp [set, get?_cons, h]
      · by_cases ho : other = k
        · simp [set, hk, ho, get?_cons]
        · simp [set, hk, ho, get?_cons, ih]

end Fields

/-! ## Values -/

namespace Value

/-- The characters of a value that is a text; a connective counts as its word. -/
def text? : Value → Option String
  | text s => some s
  | connective c => some c.word
  | _ => none

/-- The fields of a value that is a record. -/
def record? : Value → Option Fields
  | record fields => some fields
  | _ => none

/-- The value is a record. -/
def isRecord : Value → Bool
  | record _ => true
  | _ => false

/-- The value is a list. -/
def isList : Value → Bool
  | list _ => true
  | _ => false

/-- The value is the absent one. -/
def isNull : Value → Bool
  | null => true
  | _ => false

theorem isNull_iff {v : Value} : v.isNull = true ↔ v = null := by
  cases v <;> simp [isNull]

/-- The items of a list or tuple. -/
def items? : Value → Option (List Value)
  | list items => some items
  | tuple items => some items
  | _ => none

/-- The values that going through a value gives: items, field names, or single code points. -/
def elements? : Value → Option (List Value)
  | list items => some items
  | tuple items => some items
  | record fields => some (fields.map fun field => text field.1)
  | text s => some ((Text.toCodePoints s).map fun point => text (Text.ofCodePoints [point]))
  | connective c => some (c.word.toList.map fun c => text (String.ofList [c]))
  | _ => none

/-- The value counts as true: it is neither absent, false, zero nor empty. -/
def truthy : Value → Bool
  | null => false
  | bool b => b
  | int n => n != 0
  | float x => !x.isZero
  | text s => !s.isEmpty
  | list items => !items.isEmpty
  | tuple items => !items.isEmpty
  | record fields => !fields.isEmpty
  | moment _ => true
  | connective _ => true
  | node _ => true
  | deferred _ => true

/-- The absent value for nothing, and a text otherwise. -/
def ofText? : Option String → Value
  | some s => text s
  | none => null

/-- A list of texts. -/
def ofTexts (texts : List String) : Value :=
  list (texts.map text)

end Value

/-! ## Nodes -/

namespace Node

/-- The name of a leaf, or nothing for a group. -/
def name? : Node → Option String
  | leaf name .. => some name
  | group .. => none

end Node

/-- A filter group: the form that every built filter has at its root. -/
structure Group where
  ands : List Node := []
  ors : List Node := []
  nots : List Node := []
  id : Value := .null
  label : Value := .null

namespace Group

/-- The members of a branch. -/
def branch (g : Group) : Connective → List Node
  | .and => g.ands
  | .or => g.ors
  | .not => g.nots

/-- The group as a node. -/
def toNode (g : Group) : Node :=
  .group g.ands g.ors g.nots g.id g.label

/-- The group without members. -/
def empty : Group := {}

/-- No branch of the group has a member. -/
def isEmpty (g : Group) : Bool :=
  g.ands.isEmpty && g.ors.isEmpty && g.nots.isEmpty

/-- The group that a node stands for: itself, or the group whose only condition it is. -/
def ofNode : Node → Group
  | .group ands ors nots id label => ⟨ands, ors, nots, id, label⟩
  | leaf => { ands := [leaf] }

/-- A group stands for itself. -/
@[simp] theorem ofNode_toNode (g : Group) : ofNode g.toNode = g := rfl

end Group

end RecordQuery
