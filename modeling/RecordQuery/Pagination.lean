import RecordQuery.Error
import RecordQuery.Number.Literal
/-!
# Paging

How much of a list a request wants to see, and in which order. Numbers that cannot be read, or that
are not positive, give way to defaults. An infinite number is a fault, though, and so is an order or a
cursor that cannot be written as a text.
-/

namespace RecordQuery

/-- How many pages to read. -/
inductive Pages
  | all
  | some (count : Int)
deriving DecidableEq, Repr

/-- The order of a list. -/
inductive SortOrder
  | ascending
  | descending
deriving DecidableEq, Repr

/-- The word for an order. -/
def SortOrder.word : SortOrder → String
  | ascending => "asc"
  | descending => "desc"

/-- The paging options of a list request. The cursor has no meaning here and is handed on. -/
structure Pagination where
  limit : Int
  count : Int
  pages : Pages
  order : SortOrder
  cursor : Option String
deriving DecidableEq, Repr

namespace Pagination

/-- The numbers that stand in for missing or malformed ones. -/
structure Defaults where
  count : Int
  limit : Int
  pages : Int

/-- The defaults, unless a caller has others. -/
def defaults : Defaults := ⟨12, 250, 1⟩

/-- The query keys that hold paging options. -/
def keys : List String := ["limit", "count", "pages", "order", "cursor"]

/-! ## Numbers -/

/-- The first item of a list, and any other value itself. -/
def firstOf (v : Value) : Value :=
  match v.items? with
  | some items => items.headD .null
  | none => v

/-- The value of a parameter, of which only the first counts. -/
def parameter (params : Fields) (key : String) : Value :=
  firstOf ((Fields.get? params key).getD .null)

/-- The integer that a value holds or spells. An infinite number is a fault. -/
def integer? : Value → Except Fault (Option Int)
  | .int n => .ok (some n)
  | .text s => .ok (readInteger? s)
  | .float (.infinity _) => .error .outOfRange
  | .float x => .ok x.truncate?
  | _ => .ok none

/-- The positive integer of a value, or else a default. -/
def readCount (v : Value) (default : Int) : Except Fault Int :=
  (integer? v).map fun n? =>
    match n? with
    | some n => if 0 < n then n else default
    | none => default

/-- The number of pages of a value: the word for all of them, or a number. -/
def readPages (v : Value) (default : Int) : Except Fault Pages :=
  match v.text? with
  | some s =>
    if (Text.trim s).toLower = "all" then .ok .all else (readCount v default).map .some
  | none => (readCount v default).map .some

/-! ## Options -/

/-- The text of an option that is not empty. -/
def textOf? (v : Value) : Except Fault (Option String) :=
  if v.truthy then v.written.map some else .ok none

/-- The order of a value; whatever does not ask for the descending one is ascending. -/
def readOrder (v : Value) : Except Fault SortOrder :=
  (textOf? v).map fun s? => if s?.map String.toLower = some "desc" then .descending else .ascending

/-- The cursor of a value. -/
def readCursor (v : Value) : Except Fault (Option String) :=
  textOf? v

/-- The fault of an option that has to be positive. -/
def positiveIssue (name : String) (n : Int) : List Issue :=
  if n < 1 then [⟨[name], "greater_than_equal"⟩] else []

/-- The paging options with a limit and a count of at least one. -/
def check (p : Pagination) : Except Error Pagination :=
  match positiveIssue "limit" p.limit ++ positiveIssue "count" p.count with
  | [] => .ok p
  | issues => .error (.model issues)

/-- The paging options of query parameters. -/
def ofParams (d : Defaults) (params : Fields) : Except Error Pagination := do
  let pages ← liftFault (readPages (parameter params "pages") d.pages)
  let limit ← liftFault (readCount (parameter params "limit") d.limit)
  let count ← liftFault (readCount (parameter params "count") d.count)
  let order ← liftFault (readOrder (parameter params "order"))
  let cursor ← liftFault (readCursor (parameter params "cursor"))
  check ⟨limit, count, pages, order, cursor⟩

end Pagination

end RecordQuery
