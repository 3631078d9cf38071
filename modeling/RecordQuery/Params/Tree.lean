import RecordQuery.Filter.Shape
import RecordQuery.Params.Key
/-!
# Parameter trees

Query parameters grow into a tree: each parameter puts its value at the end of the path that its
name spells. The branches of a group hold elements by index, which may come in any order and leave
gaps; elements are kept in ascending order of their indices. A value that meets an earlier one on
the same path joins it in a list. Paths may be of any length: the stack that it takes to follow one is
not modelled.
-/

namespace RecordQuery.Params

/-- What grows from query parameters: values, entries by name, and group elements by index. -/
inductive Tree
  | leaf (v : Value)
  | branch (entries : List (String × Tree))
  | slots (elements : List (Nat × List (String × Tree)))

/-- Entries by name, in the order of their first appearance. -/
abbrev Entries := List (String × Tree)

/-- Group elements in ascending order of their indices. -/
abbrev Slots := List (Nat × Entries)

/-! ## Trees and values -/

mutual

/-- The tree of a value that is supplied whole. -/
def Tree.ofValue : Value → Tree
  | .record fields => .branch (Tree.ofFields fields)
  | v => .leaf v
termination_by structural value => value

/-- The entries of a record that is supplied whole. -/
def Tree.ofFields : List (String × Value) → List (String × Tree)
  | [] => []
  | (key, value) :: rest => (key, Tree.ofValue value) :: Tree.ofFields rest
termination_by structural fields => fields

end

mutual

/-- The value that a tree has grown into. The elements of a group become a list. -/
def Tree.toValue : Tree → Value
  | .leaf v => v
  | .branch entries => .record (Tree.toFields entries)
  | .slots elements => .list (Tree.toElements elements)
termination_by structural tree => tree

/-- The record that entries have grown into. -/
def Tree.toFields : List (String × Tree) → List (String × Value)
  | [] => []
  | (key, tree) :: rest => (key, tree.toValue) :: Tree.toFields rest
termination_by structural entries => entries

/-- The list that group elements have grown into. -/
def Tree.toElements : List (Nat × List (String × Tree)) → List Value
  | [] => []
  | (_, entries) :: rest => .record (Tree.toFields entries) :: Tree.toElements rest
termination_by structural elements => elements

end

/-! ## Group elements -/

namespace Slots

/-- The element at an index, without entries when there is none yet. -/
def element (slots : Slots) (index : Nat) : Entries :=
  (slots.lookup index).getD []

/-- The elements with the one at an index set. -/
def set (index : Nat) (entries : Entries) : Slots → Slots
  | [] => [(index, entries)]
  | (i, old) :: rest =>
    if index < i then (index, entries) :: (i, old) :: rest
    else if index = i then (index, entries) :: rest
    else (i, old) :: set index entries rest

/-- The index after the last one in use. -/
def next (slots : Slots) : Nat :=
  match slots.getLast? with
  | some (last, _) => last + 1
  | none => 0

end Slots

/-! ## Values on one path -/

/-- The items of a list, and any other value as the only item. -/
def asItems : Value → List Value
  | .list items => items
  | v => [v]

/-- The list of all values of a path that had one value before. -/
def joinValues (earlier later : Value) : Value :=
  .list (asItems earlier ++ asItems later)

/-- The entries with a value put under a segment. A segment with nested entries takes no value. -/
def putValue (entries : Entries) (segment : String) (value : Value) : Except ParseFault Entries :=
  match Fields.get? entries segment with
  | none => .ok (Fields.set entries segment (Tree.ofValue value))
  | some (.leaf earlier) => .ok (Fields.set entries segment (.leaf (joinValues earlier value)))
  | some _ => .error .plainOverNested

/-- The entries with a value put under an attribute. A plain value beside operators means
equality. -/
def putAttribute (entries : Entries) (name : String) (value : Value) : Except ParseFault Entries :=
  match Fields.get? entries name with
  | some (.branch operators) => do
    let operators ← putValue operators Operator.equals.name value
    return Fields.set entries name (.branch operators)
  | _ => putValue entries name value

/-! ## Paths -/

/-- The segments without empty ones at the end, which only mark that several values may come. -/
def dropMarks (segments : List String) : List String :=
  (segments.reverse.dropWhile (· == "")).reverse

/-- The entries with a value put at the end of a path below an attribute. -/
def putBelow (value : Value) : List String → Entries → Except ParseFault Entries
  | [], entries => .ok entries
  | segment :: rest, entries =>
    if segment = "" then .error .emptySegment
    else if rest.isEmpty then putValue entries segment value
    else
      match Fields.get? entries segment with
      | none | some (.leaf .null) => do
        let below ← putBelow value rest []
        return Fields.set entries segment (.branch below)
      | some (.branch below) => do
        let below ← putBelow value rest below
        return Fields.set entries segment (.branch below)
      | some _ => .error .nestedUnderPlain
termination_by structural segments => segments

/-- The entries with a value put at the end of a path that begins with an attribute. A plain value
of the attribute becomes its value for equality when operators follow. -/
def putPath (value : Value) (name : String) (rest : List String) (entries : Entries) :
    Except ParseFault Entries :=
  if name = "" then .error .emptySegment
  else
    let below := dropMarks rest
    if below.isEmpty then putAttribute entries name value
    else
      -- what the attribute has so far, a plain value as its value for equality
      let start : Entries :=
        match Fields.get? entries name with
        | none | some (.leaf .null) => []
        | some (.branch operators) => operators
        | some plain => [(Operator.equals.name, plain)]
      (putBelow value below start).map fun operators => Fields.set entries name (.branch operators)

/-! ## Groups -/

/-- The segment stands for an index: it is empty, or all its characters are digits. -/
def isIndex (segment : String) : Bool :=
  segment.toList.all Text.Digit.isDigitLike

/-- The index that a segment stands for; an empty one is the first index. Digits without a decimal
value, or too many of them, are no index. -/
def readIndex (segment : String) : Except Fault Nat :=
  if segment = "" then .ok 0
  else
    match readInteger? segment with
    | some n => .ok n.toNat
    | none => .error .badValue

/-- The elements with records added after the last one. -/
def addElements (slots : Slots) : List Value → Except ParseFault Slots
  | [] => .ok slots
  | .record fields :: rest => addElements (Slots.set slots.next (Tree.ofFields fields) slots) rest
  | v :: _ => .error (.notFragment v)

/-- The entries with those of a record put over them. -/
def overwrite (entries : Entries) (fields : Fields) : Entries :=
  (Tree.ofFields fields).foldl (fun entries entry => Fields.set entries entry.1 entry.2) entries

/-- The error of a parse fault in a parameter name. -/
def refuse {α : Type} (key : String) : Except ParseFault α → Except Error α
  | .ok a => .ok a
  | .error fault => .error (FilterError.parse fault (.text key)).raised

/-- The elements of a group branch that entries hold, unless something else stands in its place. -/
def slotsOf (entries : Entries) (word : String) : Except ParseFault Slots :=
  match Fields.get? entries word with
  | none => .ok []
  | some (.slots elements) => .ok elements
  | some _ => .error (.groupConflict word)

/-- The entries with a value put at the end of the path of a parameter name. -/
def assign (key : String) (value : Value) : List String → Entries → Except Error Entries
  | [], entries => .ok entries
  | segment :: rest, entries =>
    if FilterKey.isBranch segment then do
      let slots ← refuse key (slotsOf entries segment)
      let slots ←
        match rest with
        -- whole elements, which come after those in use
        | [] => refuse key (addElements slots (asItems value))
        | first :: later =>
          if first = "" ∧ later = [] then refuse key (addElements slots (asItems value))
          -- an index, and a path inside its element or the whole of it
          else if isIndex first then do
            let index ← liftFault (readIndex first)
            let element := Slots.element slots index
            match later, value with
            | [], .record fields => .ok (Slots.set index (overwrite element fields) slots)
            | [], v => refuse key (.error (.notFragment v))
            | _, _ => do
              let element ← assign key value later element
              pure (Slots.set index element slots)
          -- no index: the path leads into the first element
          else do
            let element ← assign key value (first :: later) (Slots.element slots 0)
            pure (Slots.set 0 element slots)
      return Fields.set entries segment (.slots slots)
    else refuse key (putPath value segment rest entries)
termination_by structural segments => segments

/-! ## Parameters -/

/-- The entries that parameters have grown into, from given entries on. Absent values are
skipped. -/
def growFrom (entries : Entries) : Fields → Except Error Entries
  | [] => .ok entries
  | (_, .null) :: rest => growFrom entries rest
  | (key, value) :: rest => do
    let segments ← liftFilter (splitKey key)
    let entries ← assign key value segments entries
    growFrom entries rest

/-- The nested form of flat query parameters. -/
def parse (params : Fields) : Except Error Fields :=
  (growFrom [] params).map Tree.toFields

end RecordQuery.Params
