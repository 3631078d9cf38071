import RecordQuery.Value.Equality
import RecordQuery.Value.Text
/-!
# Value envelopes

A value may come in an envelope: a record whose field `val` holds the value itself and whose field
`valType` says how to take it — as it stands, as the name of another attribute, or as an expression
that is passed on unevaluated. `openEnvelope` gives the value to compare with. What a reader of the
log should know about a value is collected as notices.
-/

namespace RecordQuery

/-- How the content of an envelope is taken. -/
inductive ValueKind
  | literal
  | reference
  | expression
deriving DecidableEq, Repr

namespace ValueKind

/-- Every kind, in the order of the vocabulary. -/
def all : List ValueKind := [.literal, .reference, .expression]

/-- The word for a kind. -/
def word : ValueKind → String
  | literal => "literal"
  | reference => "propRef"
  | expression => "expression"

/-- The kind of a word. -/
def ofWord? (s : String) : Option ValueKind :=
  all.find? fun kind => kind.word == s

end ValueKind

/-! ## Notices -/

/-- Something about a value that is worth a note in the log. -/
inductive Notice
  /-- The kind of an envelope is no known word. -/
  | unknownKind (word : Value)
  /-- A reference is met where nothing resolves references. -/
  | unresolved (name : Value)
  /-- An expression is passed on as it is. -/
  | unevaluated (expression : Value)
  /-- Keywords are given and no attribute to search. -/
  | unsearchable (keywords : List Value)
deriving DecidableEq

/-- The wording of a notice. -/
def Notice.text : Notice → String
  | unknownKind word => "Unknown valType " ++ word.shown ++ ", treating value as literal"
  | unresolved name =>
    "No property reference resolver available, treating " ++ name.shown ++ " as literal"
  | unevaluated expression =>
    "Expression filter values are not evaluated, passing " ++ expression.shown ++ " through"
  | unsearchable keywords =>
    "Search keywords " ++ (Value.list keywords).shown ++
      " given without searchable attributes, ignoring"

/-- The wordings of notices, each at its first appearance only. -/
def noticeTexts (notices : List Notice) : List String :=
  (notices.map Notice.text).eraseDups

/-! ## Envelopes -/

namespace Value

/-- The content and the declared kind of an envelope. -/
def envelope? : Value → Option (Value × Value)
  | record fields => (Fields.get? fields "val").map fun content =>
      (content, (Fields.get? fields "valType").getD null)
  | _ => none

/-- The value is an envelope. -/
def isEnvelope (v : Value) : Bool :=
  v.envelope?.isSome

/-- The kind that a declaration names; an absent or unknown one means a literal. -/
def declaredKind (declaration : Value) : ValueKind :=
  (declaration.text?.bind ValueKind.ofWord?).getD .literal

/-- The kind of a value: that of its envelope, and literal without one. -/
def kind (v : Value) : ValueKind :=
  match v.envelope? with
  | some (_, declaration) => declaredKind declaration
  | none => .literal

/-- What there is to note about the declared kind of a value. -/
def kindNotices (v : Value) : List Notice :=
  match v.envelope? with
  | some (_, declaration) =>
    if declaration.isNull || (declaration.text?.bind ValueKind.ofWord?).isSome then []
    else [.unknownKind declaration]
  | none => []

/-- The value to compare with. References go through `resolve` when it is given and stand for their
own name otherwise. -/
def openEnvelope {ε : Type} (resolve : Option (Value → Except ε Value)) (v : Value) :
    Except ε Value :=
  match v.envelope? with
  | none => .ok v
  | some (content, declaration) =>
    match declaredKind declaration, resolve with
    | .reference, some f => f content
    | _, _ => .ok content

/-- What there is to note when a value is opened. -/
def openNotices (resolves : Bool) (v : Value) : List Notice :=
  match v.envelope? with
  | none => []
  | some (content, declaration) =>
    v.kindNotices ++
      match declaredKind declaration with
      | .reference => if resolves then [] else [.unresolved content]
      | .expression => [.unevaluated content]
      | .literal => []

/-- The content of a literal envelope, and any other value as it is. -/
def unwrap (v : Value) : Value :=
  match v.envelope? with
  | some (content, declaration) =>
    if declaredKind declaration = .literal then content else v
  | none => v

/-- A value without an envelope is literal. -/
theorem kind_of_not_envelope {v : Value} (h : v.envelope? = none) : v.kind = .literal := by
  simp [kind, h]

/-- A value without an envelope is compared with as it is. -/
theorem openEnvelope_of_not_envelope {ε : Type} {v : Value} (h : v.envelope? = none)
    (resolve : Option (Value → Except ε Value)) : v.openEnvelope resolve = .ok v := by
  simp [openEnvelope, h]

end Value

end RecordQuery
