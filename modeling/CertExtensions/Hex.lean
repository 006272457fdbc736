import CertExtensions.Text.Split

/-!
# Hexadecimal texts

Three ways to show bytes:

* `plain`: two upper case digits a byte;
* `numeral`: the bytes as one unsigned number, `0x` and groups of four digits;
* `dump`: eight bytes a line, hex pairs first and the Latin-1 characters of the same bytes behind them.
-/

namespace CertExtensions.Hex

/-- The upper case digit of a number below sixteen. -/
def digit (n : Nat) : Char :=
  if n < 10 then Char.ofNat (48 + n) else Char.ofNat (55 + n)

def pair (b : UInt8) : List Char :=
  [digit (b.toNat / 16), digit (b.toNat % 16)]

def digits (bytes : List UInt8) : List Char :=
  bytes.flatMap pair

def plain (bytes : List UInt8) : String :=
  String.ofList (digits bytes)

/-! ### Numerals -/

/-- The digits of the number that the bytes form, without leading zeros; zero has no digit. -/
def significant (bytes : List UInt8) : List Char :=
  (digits bytes).dropWhile (· == '0')

/-- Zeros in front until the length is a positive multiple of four. -/
def padded (ds : List Char) : List Char :=
  let ds := if ds.isEmpty then ['0'] else ds
  List.replicate ((4 - ds.length % 4) % 4) '0' ++ ds

/-- A blank between every four characters. -/
def spaced : List Char → List Char
  | a :: b :: c :: d :: e :: rest => a :: b :: c :: d :: ' ' :: spaced (e :: rest)
  | ds => ds

/-- The bytes as an unsigned number: `0x` and upper case digits in full groups of four. -/
def numeral (bytes : List UInt8) : String :=
  String.ofList ('0' :: 'x' :: spaced (padded (significant bytes)))

/-! ### Dumps -/

/-- Rows of eight bytes; the last one may be shorter. -/
def rows : List UInt8 → List (List UInt8)
  | [] => []
  | a :: b :: c :: d :: e :: f :: g :: h :: rest => [a, b, c, d, e, f, g, h] :: rows rest
  | row => [row]

/-- The Latin-1 character of a byte, control characters as a full stop. -/
def clear (b : UInt8) : Char :=
  if b < 32 ∨ (127 ≤ b ∧ b < 160) then '.' else Char.ofNat b.toNat

/-- A row of a dump: the pairs, blanks for missing bytes, a gap of three blanks, the characters. -/
def dumpRow (row : List UInt8) : List Char :=
  Text.join ' ' (row.map pair) ++ List.replicate (3 * (8 - row.length)) ' ' ++ [' ', ' ', ' '] ++ row.map clear

/-- The hex dump of the bytes, without a line feed at the end. -/
def dump (bytes : List UInt8) : String :=
  String.ofList (Text.join '\n' ((rows bytes).map dumpRow))

end CertExtensions.Hex
