import RecordQuery.Filter.Build
/-!
# Validating filters

Every fault of a raw filter, not only the first one. Groups are gone through member by member and
maps of attributes entry by entry; whatever else a filter holds is built, and reports the error of
its building. What is collected are attempts to report an error: they take its message, and when one of
them fails there are no reports at all.
-/

namespace RecordQuery

/-- The report of an error: its place, or else the place of the filter, and its message. -/
def report (path : String) (e : FilterError) : String :=
  let place :=
    match e.path? with
    | some place => if place.truthy then place.asText else path
    | none => path
  place ++ ": " ++ e.message

/-- The attempt to report an error, which fails if its message cannot be written. -/
def reported (path : String) (e : FilterError) : Except Fault String :=
  if e.isWritable then .ok (report path e) else .error .badValue

/-- The report of a filter that is built as a whole. -/
def leafReports (w : Option Whitelist) (path : String) (v : Value) : List (Except Fault String) :=
  match buildAt w path v with
  | .ok _ => []
  | .error e => [reported path e]

/-- The filter on one attribute that an entry of a map stands for. -/
def entryFilter (key : String) (value : Value) : Value :=
  .record (Fields.ofList ((FilterKey.name, .text key) :: value.record?.getD []))

/-- The reports of the entries of a map of attributes. -/
def mapReports (w : Option Whitelist) (path : String) (fields : Fields) :
    List (Except Fault String) :=
  (fields.filter fun field => !FilterKey.isMapMetadata field.1 field.2).flatMap fun field =>
    leafReports w s!"{path}.{field.1}" (entryFilter field.1 field.2)

mutual

/-- The reports of all faults of a raw filter at a place. -/
def reportsAt (w : Option Whitelist) (path : String) : Value → List (Except Fault String)
  | .record fields =>
    -- a group is reported on member by member, so that one fault hides no other
    if (Value.record fields).isGroupFilter then
      branchReports w path .and fields ++ branchReports w path .or fields ++
        branchReports w path .not fields
    else if (Value.record fields).isEntityFilter then mapReports w path fields
    else leafReports w path (.record fields)
  | v => leafReports w path v
termination_by structural value => value

/-- The reports of a branch among the fields of a group. -/
def branchReports (w : Option Whitelist) (path : String) (branch : Connective) :
    List (String × Value) → List (Except Fault String)
  | [] => []
  | (key, value) :: rest =>
    if key = branch.word then
      match value with
      | .null => []
      | .list items => memberReports w s!"{path}.{branch.word}" 0 items
      | _ => [.ok s!"{path}.{branch.word}: group branch must be a list"]
    else branchReports w path branch rest
termination_by structural fields => fields

/-- The reports of the members of a branch, of which the first has the given index. -/
def memberReports (w : Option Whitelist) (path : String) (index : Nat) :
    List Value → List (Except Fault String)
  | [] => []
  | value :: rest =>
    reportsAt w s!"{path}[{index}]" value ++ memberReports w path (index + 1) rest
termination_by structural values => values

end

/-- The reports of all faults of a raw filter; a filter without faults has none. The first error whose
message cannot be written ends it. -/
def validate (w : Option Whitelist) (v : Value) : Except Fault (List String) :=
  (reportsAt w rootPath v).mapM id

end RecordQuery
