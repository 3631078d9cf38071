import RecordQuery.Error
/-!
# Parameter names

A parameter name spells a path. Its first segment is a plain name; each further one follows a dot or
stands in brackets, inside which every character but the closing bracket is part of the segment.
`segments?` takes a name apart and reports what is malformed about it.
-/

namespace RecordQuery.Params

/-- The place inside a parameter name that a reader has come to. -/
inductive Place
  /-- Inside a plain segment, of which some characters may have been read. -/
  | plain
  /-- Behind a closing bracket. -/
  | closed
  /-- Behind a dot. -/
  | dotted
deriving DecidableEq, Repr

/-- The segments of the rest of a parameter name. `read` holds the characters of the current plain
segment in reverse, and `started` tells whether there is an earlier segment. -/
def segmentsFrom : Place → (started : Bool) → (read : List Char) → List Char →
    Except ParseFault (List (List Char))
  | .dotted, _, [], [] => .error .emptySegment
  | _, _, [], [] => .ok []
  | _, _, read, [] => .ok [read.reverse]
  | place, started, read, c :: rest =>
    -- a bracket ends a plain segment and begins one of its own
    if c = '[' then
      if !rest.contains ']' then .error .openBracket
      else if read.isEmpty && !started then .error .missingName
      else do
        let later ← bracketFrom [] rest
        return if read.isEmpty then later else read.reverse :: later
    -- behind a closing bracket a dot is optional, and nothing but a bracket may follow without it
    else if c = '.' ∧ place = .closed then segmentsFrom .dotted true [] rest
    else if place = .closed then .error (.afterBracket c)
    else if c = ']' then .error .closingBracket
    -- any other dot ends a plain segment
    else if c = '.' then
      if read.isEmpty then .error .emptySegment
      else do
        let later ← segmentsFrom .dotted true [] rest
        return read.reverse :: later
    else segmentsFrom .plain started (c :: read) rest
where
  /-- The segments of the rest of a parameter name inside brackets, of which some characters have
  been read. -/
  bracketFrom : (read : List Char) → List Char → Except ParseFault (List (List Char))
    | _, [] => .error .openBracket
    | read, c :: rest =>
      if c = ']' then do
        let later ← segmentsFrom .closed true [] rest
        return read.reverse :: later
      else bracketFrom (c :: read) rest

/-- The segments of a parameter name. -/
def segments? (key : String) : Except ParseFault (List String) :=
  if key = "" then .error .emptyName
  else (segmentsFrom .plain false [] key.toList).map (·.map String.ofList)

/-- The segments of a parameter name; an error carries the name. -/
def splitKey (key : String) : Except FilterError (List String) :=
  match segments? key with
  | .ok segments => .ok segments
  | .error fault => .error (.parse fault (.text key))

end RecordQuery.Params
