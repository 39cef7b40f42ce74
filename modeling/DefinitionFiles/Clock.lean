import DefinitionFiles.Text.Bytes

/-!
# Times of log entries

A moment is counted in seconds from the start of the year 1970. A log line for people shows the
time of day, and a JSON line the date with the time.
-/

namespace DefinitionFiles

/-- A moment, in seconds from the start of the year 1970 in universal time. -/
structure Moment where
  seconds : Nat
  deriving DecidableEq, Repr

/-- A day in the calendar. -/
structure Date where
  year : Nat
  month : Nat
  day : Nat
  deriving DecidableEq, Repr

namespace Date

/-- The date a number of days after the start of the year 1970. Years are counted from the first
of March, so that a leap day is the last day of its year. -/
def ofDays (days : Nat) : Date :=
  let shifted := days + 719468
  let era := shifted / 146097
  let dayOfEra := shifted % 146097
  let yearOfEra := (dayOfEra - dayOfEra / 1460 + dayOfEra / 36524 - dayOfEra / 146096) / 365
  let dayOfYear := dayOfEra - (365 * yearOfEra + yearOfEra / 4 - yearOfEra / 100)
  let month := (5 * dayOfYear + 2) / 153
  let year := yearOfEra + 400 * era
  { year := if month < 10 then year else year + 1
    month := if month < 10 then month + 3 else month - 9
    day := dayOfYear - (153 * month + 2) / 5 + 1 }

example : ofDays 0 = ⟨1970, 1, 1⟩ := by decide

example : ofDays 11016 = ⟨2000, 2, 29⟩ := by decide

example : ofDays 20819 = ⟨2027, 1, 1⟩ := by decide

end Date

namespace Moment

/-- A number with at least two digits. -/
def twoDigits (n : Nat) : Bytes :=
  if n < 10 then utf8 "0" ++ Bytes.decimal n else Bytes.decimal n

/-- The time of day. -/
def timeOfDay (m : Moment) : Bytes :=
  Bytes.join (utf8 ":")
    [twoDigits (m.seconds / 3600 % 24), twoDigits (m.seconds / 60 % 60),
      twoDigits (m.seconds % 60)]

/-- The date with the time. -/
def stamp (m : Moment) : Bytes :=
  let date := Date.ofDays (m.seconds / 86400)
  Bytes.join (utf8 "-") [Bytes.decimal date.year, twoDigits date.month, twoDigits date.day] ++
    utf8 "T" ++ m.timeOfDay ++ utf8 "Z"

end Moment

end DefinitionFiles
