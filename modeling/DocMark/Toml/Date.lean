import DocMark.Toml.Scalar

/-!
Dates and times in settings files.

There are dates, times of day, and dates with a time, which may have an offset from universal time. No setting
needs one, so a date is kept only as its texts: plain on its own, and spelled out inside other values.
-/

namespace DocMark.Toml

structure Date where
  year : Nat
  month : Nat
  day : Nat

structure TimeOfDay where
  hour : Nat
  minute : Nat
  second : Nat
  micros : Nat

def daysIn (year month : Nat) : Nat :=
  if month = 2 then
    if year % 4 = 0 ∧ (year % 100 ≠ 0 ∨ year % 400 = 0) then 29 else 28
  else if month = 4 ∨ month = 6 ∨ month = 9 ∨ month = 11 then 30
  else 31

def Date.isValid (d : Date) : Bool := 1 ≤ d.year && d.day ≤ daysIn d.year d.month

/-- A number of exactly `size` digits that is at least `low` and at most `high`. -/
def fixedNumber? (size low high : Nat) (s : Text) : Option (Nat × Text) :=
  let digits := s.take size
  let n := digitsValue 10 digits
  if digits.length = size ∧ digits.all isDecimal ∧ low ≤ n ∧ n ≤ high then some (n, s.drop size)
  else none

/-- A number as before, with a mark in front of it. -/
def markedNumber? (mark : Char) (size low high : Nat) (s : Text) : Option (Nat × Text) :=
  match s with
  | c :: r => if c = mark then fixedNumber? size low high r else none
  | [] => none

def date? (s : Text) : Option (Date × Text) := do
  let (year, r) ← fixedNumber? 4 0 9999 s
  let (month, r) ← markedNumber? '-' 2 1 12 r
  let (day, r) ← markedNumber? '-' 2 1 31 r
  return (⟨year, month, day⟩, r)

/-- Microseconds behind a point. Digits after the sixth are dropped. -/
def micros (s : Text) : Nat × Text :=
  match s with
  | '.' :: r =>
    match r.takeWhile isDecimal with
    | [] => (0, s)
    | w => (digitsValue 10 ((w ++ List.replicate 6 '0').take 6), r.dropWhile isDecimal)
  | _ => (0, s)

def timeOfDay? (s : Text) : Option (TimeOfDay × Text) := do
  let (hour, r) ← fixedNumber? 2 0 23 s
  let (minute, r) ← markedNumber? ':' 2 0 59 r
  let (second, r) ← markedNumber? ':' 2 0 59 r
  let (micros, r) := micros r
  return (⟨hour, minute, second, micros⟩, r)

/-- The offset from universal time at the head of a text, in minutes, if there is one. -/
def offset (s : Text) : Option Int × Text :=
  let minutes (r : Text) : Option (Nat × Text) := do
    let (hour, r) ← fixedNumber? 2 0 23 r
    let (minute, r) ← markedNumber? ':' 2 0 59 r
    return (60 * hour + minute, r)
  match s with
  | [] => (none, [])
  | c :: r =>
    if c = 'Z' ∨ c = 'z' then (some 0, r)
    else
      match if c = '+' ∨ c = '-' then minutes r else none with
      | some (n, rest) => (some (if c = '-' then -(n : Int) else n), rest)
      | none => (none, s)

def commas (ns : List Nat) : Text := Text.joinWith ", ".toList (ns.map Text.ofNat)

namespace Date

def shown (d : Date) : Text :=
  Text.padded 4 d.year ++ '-' :: Text.padded 2 d.month ++ '-' :: Text.padded 2 d.day

def numbers (d : Date) : List Nat := [d.year, d.month, d.day]

end Date

namespace TimeOfDay

/-- The plain text of a time of day: microseconds are written if there are any. -/
def shown (t : TimeOfDay) : Text :=
  Text.padded 2 t.hour ++ ':' :: Text.padded 2 t.minute ++ ':' :: Text.padded 2 t.second ++
    if t.micros = 0 then [] else '.' :: Text.padded 6 t.micros

/-- The numbers of a time of day, without zero seconds and microseconds at the end. -/
def numbers (t : TimeOfDay) : List Nat :=
  [t.hour, t.minute] ++
    if t.micros ≠ 0 then [t.second, t.micros] else if t.second ≠ 0 then [t.second] else []

end TimeOfDay

/-- The plain text of an offset. -/
def offsetShown (minutes : Int) : Text :=
  (if minutes < 0 then '-' else '+') :: Text.padded 2 (minutes.natAbs / 60) ++
    ':' :: Text.padded 2 (minutes.natAbs % 60)

/-- An offset spelled out: in days and seconds, of which the seconds are never negative. -/
def offsetSpelled (minutes : Int) : Text :=
  if minutes = 0 then "datetime.timezone.utc".toList
  else
    let length : Text :=
      if minutes < 0 then "days=-1, seconds=".toList ++ Text.ofInt (86400 + 60 * minutes)
      else "seconds=".toList ++ Text.ofInt (60 * minutes)
    "datetime.timezone(datetime.timedelta(".toList ++ length ++ "))".toList

def ofDate (d : Date) : Value :=
  .other d.shown ("datetime.date(".toList ++ commas d.numbers ++ ")".toList)

def ofTime (t : TimeOfDay) : Value :=
  .other t.shown ("datetime.time(".toList ++ commas t.numbers ++ ")".toList)

def ofDateAndTime (d : Date) (t : TimeOfDay) (minutes : Option Int) : Value :=
  let (shown, spelled) : Text × Text := match minutes with
    | some m => (offsetShown m, ", tzinfo=".toList ++ offsetSpelled m)
    | none => ([], [])
  .other (d.shown ++ ' ' :: t.shown ++ shown)
    ("datetime.datetime(".toList ++ commas (d.numbers ++ t.numbers) ++ spelled ++ ")".toList)

def isDateSeparator (c : Char) : Bool := c == 'T' || c == 't' || c == ' '

def timeBehind? (s : Text) : Option (TimeOfDay × Text) :=
  match s with
  | c :: r => if isDateSeparator c then timeOfDay? r else none
  | [] => none

/-- What stands at the head of a text in the way of dates. -/
inductive Dated where
  /-- No date and no time. -/
  | none
  /-- A day that the calendar does not have. -/
  | invalid
  | found (v : Value) (rest : Text)

/-- Read a date, a time, or both. -/
def dated (s : Text) : Dated :=
  match date? s with
  | some (d, r) =>
    if !d.isValid then .invalid
    else
      match timeBehind? r with
      | some (t, r) =>
        let (minutes, r) := offset r
        .found (ofDateAndTime d t minutes) r
      | Option.none => .found (ofDate d) r
  | Option.none =>
    match timeOfDay? s with
    | some (t, r) => .found (ofTime t) r
    | Option.none => .none

end DocMark.Toml
