import DefinitionFiles.Text.Bytes

/-!
# Timestamps

A timestamp is a date, or a date and a time. Between them stands the letter T, and the time then has
an offset from universal time, or white space, and the time then has none. Parts other than the year
may be written with one digit.
-/

namespace DefinitionFiles.Yaml.Timestamp

/-- Reads a number of one or two digits. -/
def number? : Bytes → Option (Nat × Bytes)
  | [] => none
  | a :: rest =>
      if !Bytes.isDigit a then none
      else match rest with
        | b :: more =>
            if Bytes.isDigit b then some (10 * (a.toNat - 0x30) + (b.toNat - 0x30), more)
            else some (a.toNat - 0x30, rest)
        | [] => some (a.toNat - 0x30, [])

/-- Reads a number of one or two digits after a mark. -/
def numberAfter? (mark : String) (text : Bytes) : Option (Nat × Bytes) :=
  (Bytes.after? (utf8 mark) text).bind number?

/-- Whether a year has a leap day. -/
def isLeap (year : Nat) : Bool :=
  year % 4 = 0 && (year % 100 != 0 || year % 400 = 0)

/-- How many days a month has. -/
def daysIn (year month : Nat) : Nat :=
  if month = 2 then (if isLeap year then 29 else 28)
  else if [4, 6, 9, 11].contains month then 30
  else 31

/-- What follows a date. -/
def afterDate? (text : Bytes) : Option Bytes := do
  let digits := text.takeWhile Bytes.isDigit
  if digits.length != 4 then none
  let year := digits.foldl (fun n b => 10 * n + (b.toNat - 0x30)) 0
  let (month, rest) ← numberAfter? "-" (text.drop 4)
  let (day, rest) ← numberAfter? "-" rest
  if 1 ≤ month && month ≤ 12 && 1 ≤ day && day ≤ daysIn year month then return rest else none

/-- What follows a fraction of a second, which may be missing. -/
def afterFraction (text : Bytes) : Bytes :=
  match text with
  | mark :: rest =>
      if (mark = 0x2E || mark = 0x2C) && rest.head?.any Bytes.isDigit then
        rest.dropWhile Bytes.isDigit
      else text
  | [] => []

/-- What follows a time of day. -/
def afterTime? (text : Bytes) : Option Bytes := do
  let (hour, rest) ← number? text
  let (minute, rest) ← numberAfter? ":" rest
  let (second, rest) ← numberAfter? ":" rest
  if hour < 24 && minute < 60 && second < 60 then return afterFraction rest else none

/-- Whether a text is an offset from universal time. -/
def isOffset (text : Bytes) : Bool :=
  match text with
  | [0x5A] => true
  | [sign, a, b, 0x3A, c, d] =>
      (sign = 0x2B || sign = 0x2D) && [a, b, c, d].all Bytes.isDigit &&
        10 * (a.toNat - 0x30) + (b.toNat - 0x30) ≤ 24 &&
        10 * (c.toNat - 0x30) + (d.toNat - 0x30) ≤ 60
  | _ => false

/-- Whether a text is a timestamp. -/
def isValid (text : Bytes) : Bool :=
  match afterDate? text with
  | none => false
  | some [] => true
  | some (mark :: rest) =>
      if mark = 0x54 || mark = 0x74 then (afterTime? rest).any isOffset
      else if mark = 0x20 then (afterTime? (rest.dropWhile (· = 0x20))).any (·.isEmpty)
      else false

example : isValid (utf8 "2001-2-3") = true := by decide +kernel

example : isValid (utf8 "2001-12-14t21:59:43.10-05:00") = true := by decide +kernel

example : isValid (utf8 "2001-02-29") = false := by decide +kernel

end DefinitionFiles.Yaml.Timestamp
