/-!
# Points in time

Dates of the Gregorian calendar with a time of day in Coordinated Universal Time, and their two texts: the mail
format with the day of the week from 1900 on, and a plain numeric form for earlier years, which the mail
format cannot express.
-/

namespace CertExtensions

/-- A date and a time of day, with a fraction of the second in nanoseconds. -/
structure Moment where
  year : Nat
  month : Nat
  day : Nat
  hour : Nat
  minute : Nat
  second : Nat
  nanosecond : Nat
  deriving DecidableEq, Repr

namespace Calendar

def isLeapYear (year : Nat) : Bool :=
  year % 4 == 0 && (year % 100 != 0 || year % 400 == 0)

/-- The number of days of a month; zero if there is no such month. -/
def daysInMonth (year : Nat) : Nat → Nat
  | 1 | 3 | 5 | 7 | 8 | 10 | 12 => 31
  | 4 | 6 | 9 | 11 => 30
  | 2 => if isLeapYear year then 29 else 28
  | _ => 0

def isDate (year month day : Nat) : Bool :=
  1 ≤ day && day ≤ daysInMonth year month

/-- The days of the year before the first of the month. -/
def daysBeforeMonth (year : Nat) : Nat → Nat
  | 0 => 0
  | month + 1 => if month = 0 then 0 else daysBeforeMonth year month + daysInMonth year month

/-- The days from the first of January of the year 0 to the date. -/
def dayNumber (year month day : Nat) : Nat :=
  let leapDays := if year = 0 then 0 else (year - 1) / 4 - (year - 1) / 100 + (year - 1) / 400 + 1
  365 * year + leapDays + daysBeforeMonth year month + (day - 1)

/-- The day of the week; the first of January of the year 0 was a Saturday. -/
def weekday (year month day : Nat) : String :=
  (["Sat", "Sun", "Mon", "Tue", "Wed", "Thu", "Fri"]).getD (dayNumber year month day % 7) ""

def monthName (month : Nat) : String :=
  (["Jan", "Feb", "Mar", "Apr", "May", "Jun", "Jul", "Aug", "Sep", "Oct", "Nov", "Dec"]).getD
    (month - 1) ""

/-- The decimal digits of a number, with zeros in front up to the width. -/
def paddedDecimal (width n : Nat) : String :=
  let digits := Nat.toDigits 10 n
  String.ofList (List.replicate (width - digits.length) '0' ++ digits)

/-- Leaves out zeros at the end, but keeps one digit. -/
def trimFraction (digits : List Char) : List Char :=
  match digits.reverse.dropWhile (· == '0') with
  | [] => ['0']
  | rest => rest.reverse

end Calendar

namespace Moment

open Calendar

/-- Day of the week, date, time of day and zone, as mail headers write them. -/
def mailText (t : Moment) : String :=
  weekday t.year t.month t.day ++ ", " ++ paddedDecimal 2 t.day ++ " " ++ monthName t.month ++ " " ++
    paddedDecimal 4 t.year ++ " " ++ paddedDecimal 2 t.hour ++ ":" ++ paddedDecimal 2 t.minute ++ ":" ++
    paddedDecimal 2 t.second ++ " +0000"

/-- Date and time of day in numbers; the hour is not padded, the fraction is as short as possible. -/
def numericText (t : Moment) : String :=
  paddedDecimal 4 t.year ++ "-" ++ paddedDecimal 2 t.month ++ "-" ++ paddedDecimal 2 t.day ++ " " ++
    toString t.hour ++ ":" ++ paddedDecimal 2 t.minute ++ ":" ++ paddedDecimal 2 t.second ++ "." ++
    String.ofList (trimFraction (paddedDecimal 9 t.nanosecond).toList) ++ " +00:00:00"

def text (t : Moment) : String :=
  if t.year < 1900 then t.numericText else t.mailText

end Moment

end CertExtensions
