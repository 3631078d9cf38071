import RecordQuery.Calendar.Moment
import RecordQuery.Fault
import RecordQuery.Text.Digit
/-!
# Reading moments

A moment is written as a date, then optionally a time of day of hours and minutes, seconds and a
fraction, then optionally an offset from universal time. A moment with a time and an offset is
turned into universal time; an offset that follows the date directly is read as the local time of
day. A fraction counts to the microsecond.
-/

namespace RecordQuery.Moment

/-! ## Parts of the written form -/

/-- A number of exactly `count` digits, and what follows it. -/
def takeNumber? : Nat → Nat → List Char → Option (Nat × List Char)
  | 0, n, cs => some (n, cs)
  | count + 1, n, c :: cs =>
    if c.isDigit then takeNumber? count (10 * n + (c.toNat - 48)) cs else none
  | _ + 1, _, [] => none

/-- One given character, and what follows it. -/
def takeChar? (expected : Char) : List Char → Option (List Char)
  | c :: cs => if c = expected then some cs else none
  | [] => none

/-- A date, and what follows it. -/
def takeDate? (cs : List Char) : Option (Date × List Char) := do
  let (year, cs) ← takeNumber? 4 0 cs
  let cs ← takeChar? '-' cs
  let (month, cs) ← takeNumber? 2 0 cs
  let cs ← takeChar? '-' cs
  let (day, cs) ← takeNumber? 2 0 cs
  return (⟨year, month, day⟩, cs)

/-- A time of day. -/
structure Clock where
  hour : Nat
  minute : Nat
  second : Nat
  microsecond : Nat

/-- The time is one that a clock shows. -/
def Clock.isValid (t : Clock) : Bool :=
  t.hour ≤ 23 && t.minute ≤ 59 && t.second ≤ 59

/-- Hours and minutes with or without a colon between them, and what follows them. -/
def takeHourMinute? (colon : Bool) (cs : List Char) : Option (Nat × Nat × List Char) := do
  let (hour, cs) ← takeNumber? 2 0 cs
  let cs ← if colon then takeChar? ':' cs else some cs
  let (minute, cs) ← takeNumber? 2 0 cs
  return (hour, minute, cs)

/-- The microseconds that the digits of a fraction denote; further digits are cut off. -/
def microseconds (digits : List Char) : Nat :=
  ((digits.take 6) ++ List.replicate (6 - digits.length) '0').foldl
    (fun n c => 10 * n + (c.toNat - 48)) 0

/-- The microseconds of a fraction. The digits that count are plain ones; those that are cut off may
be of any script where the time of day is not the end of the text. -/
def readFraction? (atEnd : Bool) (digits : List Char) : Option Nat :=
  let plain := if atEnd then digits else digits.take 6
  if digits.isEmpty || !digits.all Text.Digit.isDecimal || !plain.all Char.isDigit then none
  else some (microseconds digits)

/-- The seconds with an optional fraction that are the rest of a time of day, if a colon announces
them. -/
def readSeconds? (atEnd : Bool) : List Char → Option (Nat × Nat)
  | [] => some (0, 0)
  | ':' :: cs => do
    let (second, cs) ← takeNumber? 2 0 cs
    match cs with
    | [] => some (second, 0)
    | '.' :: digits => (readFraction? atEnd digits).map (second, ·)
    | _ => none
  | _ => none

/-- The time of day that is the whole of the characters. -/
def readClock? (atEnd : Bool) (cs : List Char) : Option Clock := do
  let (hour, minute, cs) ← takeHourMinute? true cs
  let (second, microsecond) ← readSeconds? atEnd cs
  return ⟨hour, minute, second, microsecond⟩

/-- An offset from universal time: its direction, hours and minutes. -/
structure Offset where
  behind : Bool
  hour : Nat
  minute : Nat

/-- The offset that is the whole of the text. -/
def readOffset? : List Char → Option Offset
  | ['Z'] => some ⟨false, 0, 0⟩
  | c :: cs =>
    if c = '+' ∨ c = '-' then
      match takeHourMinute? (cs.contains ':') cs with
      | some (hour, minute, []) => some ⟨c == '-', hour, minute⟩
      | _ => none
    else none
  | [] => none

/-- The offset in minutes. -/
def Offset.minutes (o : Offset) : Int :=
  let magnitude : Int := ↑(60 * o.hour + o.minute)
  if o.behind then -magnitude else magnitude

/-- The offset is less than a day. -/
def Offset.isValid (o : Offset) : Bool :=
  60 * o.hour + o.minute < 1440

/-! ## Whole moments -/

/-- The minutes of a day. -/
def minutesPerDay : Int := 1440

/-- The moment in universal time of a clock reading at an offset. -/
def atOffset (date : Date) (t : Clock) (o : Offset) : Except Fault Moment :=
  -- an offset is less than a day, so at most one day boundary is crossed
  let minutes : Int := ↑(60 * t.hour + t.minute) - o.minutes
  let day? :=
    if minutes < 0 then date.previous?
    else if minutesPerDay ≤ minutes then date.next?
    else some date
  match day? with
  | none => .error .outOfRange
  | some day =>
    let clock := (minutes % minutesPerDay).toNat
    .ok ⟨day, clock / 60, clock % 60, t.second, t.microsecond, true⟩

/-- The moment of a local clock reading. -/
def atLocal (date : Date) (t : Clock) : Moment :=
  ⟨date, t.hour, t.minute, t.second, t.microsecond, false⟩

/-- What follows the date of a moment. -/
inductive Tail
  | none
  | offset (o : Offset)
  | clock (t : Clock)
  | clockAt (t : Clock) (o : Offset)

/-- The character begins an offset. -/
def beginsOffset (c : Char) : Bool :=
  c == '+' || c == '-' || c == 'Z'

/-- The rest of a written moment after its date. -/
def readTail? : List Char → Option Tail
  | [] => some .none
  | c :: cs =>
    if c = 'T' ∨ c = ' ' then
      match cs.span (!beginsOffset ·) with
      | (time, []) => (readClock? true time).map .clock
      | (time, rest) => do
        let t ← readClock? false time
        let o ← readOffset? rest
        return .clockAt t o
    else (readOffset? (c :: cs)).map .offset

/-- The moment that the parts denote, or nothing when no calendar or clock shows them. -/
def ofParts? (date : Date) : Tail → Except Fault (Option Moment)
  | .none => .ok (some (atLocal date ⟨0, 0, 0, 0⟩))
  | .offset o =>
    -- without a time of day, the digits of the offset are taken for it
    let t : Clock := ⟨o.hour, o.minute, 0, 0⟩
    .ok (if t.isValid then some (atLocal date t) else none)
  | .clock t => .ok (if t.isValid then some (atLocal date t) else none)
  | .clockAt t o =>
    if t.isValid && o.isValid then (atOffset date t o).map some else .ok none

/-- The moment that the text denotes, if it is one. A moment whose universal time lies outside the
calendar is a fault. -/
def ofText? (cs : List Char) : Except Fault (Option Moment) :=
  match takeDate? cs with
  | none => .ok none
  | some (date, rest) =>
    match readTail? rest with
    | none => .ok none
    | some tail => if date.Valid then ofParts? date tail else .ok none

end RecordQuery.Moment
