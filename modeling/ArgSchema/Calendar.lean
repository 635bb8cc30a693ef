/-
# Dates, times of day and durations

Dates of the Gregorian calendar, times of day to the microsecond, moments with
or without an offset from universal time, and durations in microseconds.

Key definitions:
* `Date.fault?`, `Clock.fault?`: what is wrong with a date or a time of day.
* `Date.iso`, `TimeOfDay.iso`, `Moment.iso`: the ISO form.
* `Date.shown`, `TimeOfDay.shown`, `Moment.shown`, `Duration.shown`: the form that
  names the kind and its parts.
* `Moment.instant`: where a moment with an offset lies, in microseconds.
-/
namespace ArgSchema

structure Date where
  year : Nat
  month : Nat
  day : Nat
  deriving DecidableEq, Repr

/-- A time of day. -/
structure Clock where
  hour : Nat
  minute : Nat
  second : Nat
  microsecond : Nat
  deriving DecidableEq, Repr

/-- A length of time in microseconds. -/
structure Duration where
  microseconds : Int
  deriving DecidableEq, Repr

/-- A time of day; `offset` is the distance from universal time, if it is known. -/
structure TimeOfDay where
  clock : Clock
  offset : Option Duration
  deriving DecidableEq, Repr

/-- A date and a time of day; `offset` is the distance from universal time, if it is
known. -/
structure Moment where
  date : Date
  clock : Clock
  offset : Option Duration
  deriving DecidableEq, Repr

/-- What is wrong with the parts of a date, a time of day or an offset. -/
inductive CalendarFault where
  | year (n : Nat)
  | month
  | day
  | hour
  | minute
  | second
  | offset (d : Duration)
  deriving DecidableEq, Repr

/-- `n` in decimal, with zeros in front up to `width` digits. -/
def padded (width n : Nat) : String :=
  let ds := toString n
  "".pushn '0' (width - ds.length) ++ ds

/-- Texts with a separator between neighbours. -/
def joinWith (sep : String) (xs : List String) : String := String.intercalate sep xs

namespace Date

def isLeap (year : Nat) : Bool := year % 4 == 0 && (year % 100 != 0 || year % 400 == 0)

def daysInMonth (year month : Nat) : Nat :=
  if month = 2 then (if isLeap year then 29 else 28)
  else if month = 4 ∨ month = 6 ∨ month = 9 ∨ month = 11 then 30 else 31

/-- The first part that is out of range: the year, then the month, then the day. -/
def fault? (d : Date) : Option CalendarFault :=
  if d.year < 1 ∨ 9999 < d.year then some (.year d.year)
  else if d.month < 1 ∨ 12 < d.month then some .month
  else if d.day < 1 ∨ daysInMonth d.year d.month < d.day then some .day
  else none

def iso (d : Date) : String := padded 4 d.year ++ "-" ++ padded 2 d.month ++ "-" ++ padded 2 d.day

def shown (d : Date) : String :=
  "datetime.date(" ++ joinWith ", " [toString d.year, toString d.month, toString d.day] ++ ")"

/-- The days before year `y` of the calendar that starts with year one. -/
def daysBeforeYear (y : Nat) : Nat := let p := y - 1; 365 * p + p / 4 - p / 100 + p / 400

/-- The number of a day, counted from the first day of year one. -/
def ordinal (d : Date) : Nat :=
  daysBeforeYear d.year
    + ((List.range (d.month - 1)).map fun m => daysInMonth d.year (m + 1)).foldl (· + ·) 0 + d.day

end Date

namespace Clock

/-- The first part that is out of range: the hour, then the minute, then the second. -/
def fault? (c : Clock) : Option CalendarFault :=
  if 23 < c.hour then some .hour
  else if 59 < c.minute then some .minute
  else if 59 < c.second then some .second
  else none

def iso (c : Clock) : String :=
  padded 2 c.hour ++ ":" ++ padded 2 c.minute ++ ":" ++ padded 2 c.second
    ++ (if c.microsecond = 0 then "" else "." ++ padded 6 c.microsecond)

/-- Hour and minute always; seconds and microseconds only up to the last that is not zero. -/
def parts (c : Clock) : List Nat :=
  if c.microsecond ≠ 0 then [c.hour, c.minute, c.second, c.microsecond]
  else if c.second ≠ 0 then [c.hour, c.minute, c.second]
  else [c.hour, c.minute]

def seconds (c : Clock) : Nat := 3600 * c.hour + 60 * c.minute + c.second

def microseconds (c : Clock) : Nat := c.seconds * 1000000 + c.microsecond

end Clock

namespace Duration

def ofSeconds (n : Int) : Duration := ⟨n * 1000000⟩

/-- Whole days, then seconds below a day, then microseconds below a second. -/
def parts (d : Duration) : Int × Nat × Nat :=
  let day : Int := 86400000000
  let rest := (d.microseconds % day).toNat
  (d.microseconds / day, rest / 1000000, rest % 1000000)

def shown (d : Duration) : String :=
  let (days, seconds, microseconds) := d.parts
  let part (name : String) (n : Int) : List String := if n = 0 then [] else [name ++ "=" ++ toString n]
  let shownParts := part "days" days ++ part "seconds" seconds ++ part "microseconds" microseconds
  "datetime.timedelta(" ++ (if shownParts.isEmpty then "0" else joinWith ", " shownParts) ++ ")"

/-- Days in words, then hours, minutes and seconds. -/
def text (d : Duration) : String :=
  let (days, seconds, microseconds) := d.parts
  (if days = 0 then "" else toString days ++ (if days.natAbs = 1 then " day, " else " days, "))
    ++ toString (seconds / 3600) ++ ":" ++ padded 2 (seconds / 60 % 60) ++ ":" ++ padded 2 (seconds % 60)
    ++ (if microseconds = 0 then "" else "." ++ padded 6 microseconds)

/-- An offset from universal time has to be shorter than a day. -/
def offsetFault? (d : Duration) : Option CalendarFault :=
  if d.microseconds.natAbs < 86400000000 then none else some (.offset d)

end Duration

/-! ### Offsets -/

namespace Duration

/-- An offset as sign, hours and minutes, and smaller parts where there are any. -/
def isoOffset (d : Duration) : String :=
  let n := d.microseconds.natAbs
  let s := n / 1000000
  (if d.microseconds < 0 then "-" else "+") ++ padded 2 (s / 3600) ++ ":" ++ padded 2 (s / 60 % 60)
    ++ (if n % 60000000 = 0 then "" else ":" ++ padded 2 (s % 60))
    ++ (if n % 1000000 = 0 then "" else "." ++ padded 6 (n % 1000000))

/-- An offset as the last part of what has it. -/
def zone (d : Duration) : String :=
  if d.microseconds = 0 then "tzinfo=datetime.timezone.utc"
  else "tzinfo=datetime.timezone(" ++ d.shown ++ ")"

end Duration

/-- The offset behind a time of day, if there is one. -/
def isoZone (offset : Option Duration) : String := (offset.map Duration.isoOffset).getD ""

/-- The offset among the parts of a time of day, if there is one. -/
def zoneParts (offset : Option Duration) : List String := (offset.map Duration.zone).toList

namespace TimeOfDay

def iso (t : TimeOfDay) : String := t.clock.iso ++ isoZone t.offset

def shown (t : TimeOfDay) : String :=
  "datetime.time(" ++ joinWith ", " (t.clock.parts.map toString ++ zoneParts t.offset) ++ ")"

end TimeOfDay

namespace Moment

/-- The ISO form with `sep` between date and time of day. -/
def isoWith (sep : String) (m : Moment) : String := m.date.iso ++ sep ++ m.clock.iso ++ isoZone m.offset

def iso (m : Moment) : String := m.isoWith "T"

def shown (m : Moment) : String :=
  let numbers := [m.date.year, m.date.month, m.date.day] ++ m.clock.parts
  "datetime.datetime(" ++ joinWith ", " (numbers.map toString ++ zoneParts m.offset) ++ ")"

/-- The point in time of a moment with an offset, in microseconds. -/
def instant (m : Moment) (offset : Duration) : Int :=
  ((m.date.ordinal * 86400000000 + m.clock.microseconds : Nat) : Int) - offset.microseconds

end Moment

/-- The parts of a text between separators. -/
def splitAt (isSeparator : Char → Bool) (s : String) : List String :=
  (s.split isSeparator).toList.map toString

/-- The wording of a calendar fault. -/
def CalendarFault.message : CalendarFault → String
  | .year n => "year " ++ toString n ++ " is out of range"
  | .month => "month must be in 1..12"
  | .day => "day is out of range for month"
  | .hour => "hour must be in 0..23"
  | .minute => "minute must be in 0..59"
  | .second => "second must be in 0..59"
  | .offset d =>
    "offset must be a timedelta strictly between -timedelta(hours=24) and timedelta(hours=24), not "
      ++ d.shown ++ "."

end ArgSchema
