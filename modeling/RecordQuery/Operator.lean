/-!
# Comparison operators

The comparison operators of a filter, the spellings clients may use for them, and the classes that
decide how their values are treated. Every operator is spelled by its core name (`ofSpelling?_core`)
and by its aliases.
-/

namespace RecordQuery

/-! ## Connectives -/

/-- How conditions are joined, and the name of a branch of a filter group. -/
inductive Connective
  | and
  | or
  | not
deriving DecidableEq, Repr

namespace Connective

/-- The connectives in the order in which the branches of a group are taken. -/
def all : List Connective := [.and, .or, .not]

/-- The word for a connective. -/
def word : Connective → String
  | and => "and"
  | or => "or"
  | not => "not"

/-- The word for a connective inside an expression. -/
def keyword : Connective → String
  | and => "AND"
  | or => "OR"
  | not => "NOT"

/-- The connective of a word. -/
def ofWord? (s : String) : Option Connective :=
  all.find? fun c => c.word == s

/-- The word of a connective leads back to it. -/
theorem ofWord?_word (c : Connective) : ofWord? c.word = some c := by
  cases c <;> decide

/-- Only the word of a connective is understood. -/
theorem word_of_ofWord? {s : String} {c : Connective} (h : ofWord? s = some c) : c.word = s := by
  simpa using List.find?_some h

/-- Connectives with one word are one. -/
theorem word_inj {a b : Connective} : a.word = b.word ↔ a = b := by
  cases a <;> cases b <;> decide

end Connective

/-! ## Operators -/

/-- The comparisons that a filter can make. -/
inductive Operator
  | equals
  | differs
  | greater
  | atLeast
  | less
  | atMost
  | oneOf
  | noneOf
  | between
  | isNull
  | isEmpty
  | contains
  | notContains
  | containsSome
  | like
  | startsWith
  | endsWith
deriving DecidableEq, Repr

namespace Operator

/-- Every operator, in the order of the vocabulary. -/
def all : List Operator :=
  [.equals, .differs, .greater, .atLeast, .less, .atMost, .oneOf, .noneOf, .between, .isNull,
    .isEmpty, .contains, .notContains, .containsSome, .like, .startsWith, .endsWith]

/-- The core name of an operator. -/
def name : Operator → String
  | equals => "eq"
  | differs => "neq"
  | greater => "gt"
  | atLeast => "gte"
  | less => "lt"
  | atMost => "lte"
  | oneOf => "in"
  | noneOf => "nin"
  | between => "bt"
  | isNull => "isNull"
  | isEmpty => "isEmpty"
  | contains => "contains"
  | notContains => "notContains"
  | containsSome => "containsSome"
  | like => "like"
  | startsWith => "startsWith"
  | endsWith => "endsWith"

/-- The other spellings of the operators. -/
def aliases : List (String × Operator) := [
  ("equalTo", .equals), ("equal", .equals), ("===", .equals), ("==", .equals),
  ("notEqualTo", .differs), ("notEqual", .differs), ("!==", .differs), ("!=", .differs),
  ("<>", .differs), ("ne", .differs),
  ("greaterThan", .greater), ("greaterThen", .greater), (">", .greater),
  ("greaterThanOrEqualTo", .atLeast), ("greaterThenOrEqualTo", .atLeast), (">=", .atLeast),
  (">==", .atLeast),
  ("lessThan", .less), ("lessThen", .less), ("<", .less),
  ("lessThanOrEqualTo", .atMost), ("lessThenOrEqualTo", .atMost), ("<=", .atMost),
  ("<==", .atMost),
  ("between", .between), ("bw", .between), ("><", .between),
  ("inList", .oneOf), ("notInList", .noneOf), ("notIn", .noneOf),
  ("exists", .isNull),
  ("begins", .startsWith), ("beginsWith", .startsWith),
  ("includes", .contains), ("has", .contains),
  ("includesSome", .containsSome), ("hasSome", .containsSome),
  ("notIncludes", .notContains), ("notHas", .notContains)]

/-- The operator of a core name. -/
def ofName? (s : String) : Option Operator :=
  all.find? fun op => op.name == s

/-- The operator that a spelling, core name or alias, stands for. -/
def ofSpelling? (s : String) : Option Operator :=
  match aliases.lookup s with
  | some op => some op
  | none => ofName? s

/-- The core name of an operator is one of its spellings. -/
theorem ofSpelling?_core (op : Operator) : ofSpelling? op.name = some op := by
  cases op <;> decide

/-! ## Spellings -/

/-- The text is a spelling of some operator. -/
def isSpelling (s : String) : Bool :=
  (ofSpelling? s).isSome

/-- The core name that a spelling stands for; any other text stands for itself. -/
def normalize (s : String) : String :=
  match ofSpelling? s with
  | some op => op.name
  | none => s

/-- All spellings of what a text stands for, the core name first. -/
def spellings (s : String) : List String :=
  let core := normalize s
  core :: (aliases.filter fun entry => entry.2.name == core).map (·.1)

/-- Texts in ascending order. -/
def sorted (names : List String) : List String :=
  names.mergeSort fun a b => decide (a ≤ b)

/-- Every accepted spelling, in ascending order. -/
def vocabulary : List String :=
  sorted (all.map name ++ aliases.map (·.1))

/-! ## Classes -/

/-- The operator compares by order, so its values may be read as numbers. -/
def isNumeric : Operator → Bool
  | greater | atLeast | less | atMost | between => true
  | _ => false

/-- The operator takes a list of values. -/
def isListed : Operator → Bool
  | oneOf | noneOf | contains | notContains | containsSome => true
  | _ => false

/-- The text is a spelling of an operator that compares by order. -/
def isNumericSpelling (s : String) : Bool :=
  (ofSpelling? s).any isNumeric

/-- The text is a spelling of an operator that takes a list of values. -/
def isListedSpelling (s : String) : Bool :=
  (ofSpelling? s).any isListed

/-- The two texts stand for the same operator, or are the same text. -/
def sameOperator (a b : String) : Bool :=
  normalize a == normalize b

/-- The text stands for one of the given operators. -/
def matchesAny (targets : List String) (s : String) : Bool :=
  targets.any (sameOperator s)

end Operator

end RecordQuery
