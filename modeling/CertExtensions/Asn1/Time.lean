import CertExtensions.Asn1.Primitive
import CertExtensions.Calendar

/-!
# Times

Two types of times, both in decimal digits and in Coordinated Universal Time: the one with two digits of the
year and whole seconds, the other with four digits and a fraction of the second that may have any number of
digits but no zero at its end.
-/

namespace CertExtensions.Asn1

/-- The number that a byte stands for as a decimal digit. -/
def digit? (b : UInt8) : Option Nat :=
  if 0x30 ≤ b ∧ b ≤ 0x39 then some (b.toNat - 0x30) else none

def readDecimal (n : Nat) (content : List UInt8) : Option (Nat × List UInt8) :=
  match (content.take n).mapM digit? with
  | none => none
  | some ds =>
    if ds.length = n then some (ds.foldl (fun acc d => 10 * acc + d) 0, content.drop n) else none

/-- The nanoseconds of a fraction; digits behind the ninth are left out. -/
def nanoseconds (fraction : List Nat) : Nat :=
  ((fraction ++ List.replicate 9 0).take 9).foldl (fun acc d => 10 * acc + d) 0

/-- Month, day, hour, minute and second of a year, with what follows them; the second may be at most
`lastSecond`, and 60 is kept as 59. -/
def readMoment (year lastSecond : Nat) (content : List UInt8) : Option (Moment × List UInt8) := do
  let (month, rest) ← readDecimal 2 content
  let (day, rest) ← readDecimal 2 rest
  let (hour, rest) ← readDecimal 2 rest
  let (minute, rest) ← readDecimal 2 rest
  let (second, rest) ← readDecimal 2 rest
  guard (Calendar.isDate year month day && hour < 24 && minute < 60 && second ≤ lastSecond)
  return (⟨year, month, day, hour, minute, min second 59, 0⟩, rest)

/-- The end of a time: an optional fraction that ends in a digit other than zero, and `Z`. -/
def readFraction : List UInt8 → Option (List Nat)
  | [0x5A] => some []
  | 0x2E :: rest => do
    guard (rest.getLast? = some 0x5A)
    let digits ← rest.dropLast.mapM digit?
    guard (digits.getLastD 0 ≠ 0)
    return digits
  | _ => none

/-- Four digits of the year, and a fraction of the second. -/
def decodeGeneralizedTime (content : List UInt8) : Option Moment := do
  let (year, rest) ← readDecimal 4 content
  let (moment, rest) ← readMoment year 60 rest
  let fraction ← readFraction rest
  return { moment with nanosecond := nanoseconds fraction }

/-- Two digits of the year, which is one from 1950 to 2049, and whole seconds. -/
def decodeUtcTime (content : List UInt8) : Option Moment := do
  let (year, rest) ← readDecimal 2 content
  let (moment, rest) ← readMoment (if year < 50 then 2000 + year else 1900 + year) 59 rest
  guard (rest = [0x5A])
  return moment

/-- A time with four digits of the year. -/
def generalizedTime : TaggedType Moment :=
  .ofContent .generalizedTime fun content =>
    match decodeGeneralizedTime content with
    | some moment => .ok moment
    | none => .error .invalid

/-- A time with two digits of the year. -/
def utcTime : TaggedType Moment :=
  .ofContent .utcTime fun content =>
    match decodeUtcTime content with
    | some moment => .ok moment
    | none => .error .invalid

def time : Schema Moment :=
  .choice [utcTime, generalizedTime]

end CertExtensions.Asn1
