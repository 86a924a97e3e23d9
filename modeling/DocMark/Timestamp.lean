import DocMark.Decimal.Dyadic
import DocMark.Text.Basic

/-!
Points in time as calendar dates.

The clock counts seconds from the start of 1970 in universal time, with fractions. A point in time is
rounded to the nearest microsecond before it is written. Dates are written for the years 1 to 9999 only.
-/

namespace DocMark

/-- A point in time: whole seconds since 1970, and microseconds. -/
structure Timestamp where
  seconds : Int
  micros : Nat
deriving DecidableEq, Repr

structure Calendar where
  year : Int
  month : Nat
  day : Nat
  hour : Nat
  minute : Nat
  second : Nat
deriving DecidableEq, Repr

inductive TimeError where
  | notANumber
  /-- The seconds do not fit into a machine word. -/
  | tooFar
  /-- The year does not fit into half a machine word. -/
  | yearTooFar
  /-- The calendar does not have the year. -/
  | yearOutOfRange (year : Int)
deriving DecidableEq, Repr

def TimeError.message : TimeError → Text
  | .notANumber => "Invalid value NaN (not a number)".toList
  | .tooFar => "timestamp out of range".toList
  | .yearTooFar => "[Errno 75] Value too large for defined data type".toList
  | .yearOutOfRange year => "year ".toList ++ Text.ofInt year ++ " is out of range".toList

namespace Timestamp

def ofParts (seconds : Int) (micros : Nat) : Except TimeError Timestamp :=
  if -Int.pow 2 63 ≤ seconds ∧ seconds < Int.pow 2 63 then .ok ⟨seconds, micros⟩ else .error .tooFar

def ofClock (t : Float) : Except TimeError Timestamp :=
  match Dyadic.ofFloat? t with
  | none => .error (if t.isNaN then .notANumber else .tooFar)
  | some d =>
    let whole : Int := if d.negative then -(d.whole : Int) else d.whole
    let micros := roundToInt ((t - Float.ofInt whole) * 1000000.0)
    if 1000000 ≤ micros then ofParts (whole + 1) (micros - 1000000).toNat
    else if micros < 0 then ofParts (whole - 1) (micros + 1000000).toNat
    else ofParts whole micros.toNat

/-- The year, month and day of a day counted from the start of 1970. Years are counted from March in
cycles of 400 years. -/
def civil (days : Int) : Int × Nat × Nat :=
  let shifted := days + 719468
  let cycle := shifted.fdiv 146097
  let dayOfCycle := (shifted - cycle * 146097).toNat
  let yearOfCycle :=
    (dayOfCycle - dayOfCycle / 1460 + dayOfCycle / 36524 - dayOfCycle / 146096) / 365
  let dayOfYear := dayOfCycle - (365 * yearOfCycle + yearOfCycle / 4 - yearOfCycle / 100)
  let shiftedMonth := (5 * dayOfYear + 2) / 153
  let day := dayOfYear - (153 * shiftedMonth + 2) / 5 + 1
  let month := if shiftedMonth < 10 then shiftedMonth + 3 else shiftedMonth - 9
  (yearOfCycle + cycle * 400 + (if month ≤ 2 then 1 else 0), month, day)

def calendar (t : Timestamp) : Calendar :=
  let days := t.seconds.fdiv 86400
  let rest := (t.seconds - days * 86400).toNat
  let (year, month, day) := civil days
  ⟨year, month, day, rest / 3600, rest / 60 % 60, rest % 60⟩

/-- The date and time of day, if the calendar has the year. Years are counted from 1900 in half a machine
word, and what is beyond comes out at the other end. -/
def calendar? (t : Timestamp) : Except TimeError Calendar :=
  let c := t.calendar
  if c.year < 1900 - Int.pow 2 31 ∨ 1900 + Int.pow 2 31 ≤ c.year then .error .yearTooFar
  else if 1 ≤ c.year ∧ c.year ≤ 9999 then .ok c
  else .error (.yearOutOfRange (c.year.bmod (Nat.pow 2 32)))

/-- The date behind its year, a separator and the time of day. -/
def monthToSecond (separator : Char) (c : Calendar) : Text :=
  '-' :: Text.padded 2 c.month ++ '-' :: Text.padded 2 c.day ++ separator :: Text.padded 2 c.hour ++
    ':' :: Text.padded 2 c.minute ++ ':' :: Text.padded 2 c.second

/-- The form for machines: a year of four digits, microseconds if there are any, and the offset of
universal time. -/
def iso (t : Timestamp) : Except TimeError Text := do
  let c ← t.calendar?
  return Text.padded 4 c.year.toNat ++ monthToSecond 'T' c ++
    (if t.micros = 0 then [] else '.' :: Text.padded 6 t.micros) ++ "+00:00".toList

def dayBefore (t : Timestamp) : Timestamp := { t with seconds := t.seconds - 86400 }

/-- The form for people: to the second, and with no zeros before the year. As a local time it is looked up
together with the day before, which the calendar has to have too. -/
def plain (t : Timestamp) : Except TimeError Text := do
  let c ← t.calendar?
  let _ ← t.dayBefore.calendar?
  return Text.ofInt c.year ++ monthToSecond ' ' c

end Timestamp

end DocMark
