/-!
# Faults

Ways in which an operation on single values fails, whatever filter or request they are part of.
-/

namespace RecordQuery

/-- Why an operation on a value has no result. -/
inductive Fault
  /-- A text is not the numeral it has to be, or a number is outside its allowed interval. -/
  | badValue
  /-- A number or a moment is beyond what can be represented. -/
  | outOfRange
  /-- A value is of a kind that the operation does not take. -/
  | wrongKind
  /-- A text is needed and something else is given. -/
  | notText
  /-- A record is needed and something else is given. -/
  | notRecord
  /-- No entity of that name is registered. -/
  | unregistered
deriving DecidableEq, Repr

end RecordQuery
