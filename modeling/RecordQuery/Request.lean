import RecordQuery.Filter.Merge
import RecordQuery.Pagination
import RecordQuery.Params.Group
/-!
# List requests

A list request made of query parameters. Reserved keys hold paging options, a filter, names of
attributes and search keywords; all other keys are filters in the notation of parameter names. Both
kinds of filters have to hold, and so does the keyword search once it is added.
-/

namespace RecordQuery

/-- A list request. -/
structure Request where
  attributes : Option (List String)
  filters : Group
  search : List Value
  searchAttributes : Option (List String)
  page : Pagination

namespace Request

/-! ## Parts -/

/-- The keys that hold no filters of their own. -/
def reservedKeys : List String :=
  Pagination.keys ++ ["filters", "attributes", "search", "searchAttributes"]

/-- The names in a text with commas, or in several such texts; nothing when there is none. -/
def splitNames (v : Value) : Except Fault (Option (List String)) :=
  let texts : Except Fault (List String) :=
    match v with
    | .text s => .ok [s]
    | .connective _ => .ok [v.asText]
    | v =>
      match v.elements? with
      | some elements => elements.mapM Value.written
      | none => .error .wrongKind
  if v.isNull then .ok none
  else texts.map fun texts =>
    let names := (texts.flatMap fun s => (Text.splitAt ',' s).map Text.trim).filter (· ≠ "")
    if names.isEmpty then none else some names

/-- The error of a filter parameter. -/
def badFilters (fault : ParseFault) : Error :=
  .filter (.parse fault (.text "filters"))

/-- The raw filter of a filter parameter, which is a record or JSON text. A list of one item stands
for the item. -/
def readFilters (v : Value) : Except Error Value :=
  let v :=
    match v with
    | .list [item] => item
    | v => v
  match v.text? with
  | some s =>
    match Json.read s with
    | .ok v => .ok v
    | .error (.malformed flaw) => .error (badFilters (.badJson flaw))
    | .error (.fault f) => .error (.fault f)
  | none => .ok v

/-- The filter group of a filter parameter; an absent or empty one demands nothing. -/
def parseFilters (w : Option Whitelist) (v : Value) : Except Error Group :=
  match v with
  | .null | .text "" => .ok .empty
  | v => do
    let raw ← readFilters v
    if raw.isRecord then liftFilter (buildFilter w raw) else .error (badFilters (.notRecord raw))

/-- The search text of a search parameter, whose items are put together with spaces. -/
def searchText : Value → Except Fault Value
  | .list items => do
    let texts ← items.mapM Value.written
    return .text (" ".intercalate texts)
  | v => .ok v

/-! ## Requests -/

/-- The filter group of the parameters that are not reserved, joined to a group. -/
def addParams (w : Option Whitelist) (filters : Group) (params : Fields) : Except Error Group := do
  let remaining := params.filter fun param => !reservedKeys.contains param.1
  if remaining.isEmpty then return filters
  let parsed ← Params.parse remaining
  let group ← Params.toGroup w parsed
  return filters.both group

/-- The list request of query parameters. -/
def ofParams (w : Option Whitelist) (d : Pagination.Defaults) (params : Fields) :
    Except Error Request := do
  let value (key : String) := (Fields.get? params key).getD .null
  -- the filter parameter comes first, so its errors win over those of the other keys
  let filters ← parseFilters w (value "filters")
  let filters ← addParams w filters params
  -- the search text is put together before anything is split
  let search ← liftFault (searchText (value "search"))
  let attributes ← liftFault (splitNames (value "attributes"))
  let search ← liftFault (splitKeywords search)
  let searchAttributes ← liftFault (splitNames (value "searchAttributes"))
  let page ← Pagination.ofParams d params
  return ⟨attributes, filters, search, searchAttributes, page⟩

/-! ## Keyword search -/

/-- The attributes to search: the requested ones, or else the default ones. -/
def searchedNames (r : Request) (defaults : List String) : List String :=
  match r.searchAttributes with
  | some (name :: names) => name :: names
  | _ => defaults

/-- The request with its keyword search as one more condition, if there is anything to search for
and anywhere to search. -/
def searched? (r : Request) (defaults : List String) : Option Request :=
  let names := r.searchedNames defaults
  if r.search.isEmpty || names.isEmpty then none
  else
    some { r with
      searchAttributes := some names
      filters := r.filters.add (keywordGroup r.search names).toNode }

/-- The request with its keyword search as one more condition. -/
def withSearch (r : Request) (defaults : List String) : Request :=
  (r.searched? defaults).getD r

/-- What there is to note about the keyword search of a request. -/
def searchNotices (r : Request) (defaults : List String) : List Notice :=
  if !r.search.isEmpty && (r.searchedNames defaults).isEmpty then [.unsearchable r.search] else []

end Request

end RecordQuery
