import CertExtensions.BigEndian

/-!
# UTF-16

Characters as code units of sixteen bits: one unit below U+10000, a pair of surrogates above. Reading keeps a
surrogate without partner as such, so that the caller decides whether to refuse or to replace it.
-/

namespace CertExtensions.Text.Utf16

/-- The character with the code point, if the code point is that of a character. -/
def scalar? (n : Nat) : Option Char :=
  if n.isValidChar then some (Char.ofNat n) else none

def charUnits (c : Char) : List Nat :=
  if c.toNat < 0x10000 then [c.toNat]
  else [0xD800 + (c.toNat - 0x10000) / 0x400, 0xDC00 + (c.toNat - 0x10000) % 0x400]

def units (text : List Char) : List Nat :=
  text.flatMap charUnits

def isHighSurrogate (unit : Nat) : Bool := 0xD800 ≤ unit && unit < 0xDC00

def isLowSurrogate (unit : Nat) : Bool := 0xDC00 ≤ unit && unit < 0xE000

/-- The character of a pair of surrogates. -/
def pairChar (high low : Nat) : Char :=
  Char.ofNat (0x10000 + (high - 0xD800) * 0x400 + (low - 0xDC00))

/-- The characters that the units encode; a surrogate without partner gives none. -/
def scan : List Nat → List (Option Char)
  | [] => []
  | u :: rest =>
    if isHighSurrogate u then
      match rest with
      | [] => [none]
      | v :: rest' =>
        if isLowSurrogate v then some (pairChar u v) :: scan rest' else none :: scan (v :: rest')
    else if isLowSurrogate u then none :: scan rest
    else some (Char.ofNat u) :: scan rest

/-- The text that the units encode, if they hold no surrogate without partner. -/
def decode? (units : List Nat) : Option (List Char) :=
  (scan units).mapM id

/-- The text that the units encode, with U+FFFD for each surrogate without partner. -/
def decodeLossy (units : List Nat) : List Char :=
  (scan units).map (·.getD '\uFFFD')

/-! ### Bytes -/

/-- Two bytes a unit, the higher one first. -/
def unitBytes (units : List Nat) : List UInt8 :=
  units.flatMap (BigEndian.fixed 2)

/-- The units that pairs of bytes form; a byte without partner is left out. -/
def unitsOfBytes : List UInt8 → List Nat
  | a :: b :: rest => BigEndian.value [a, b] :: unitsOfBytes rest
  | _ => []

end CertExtensions.Text.Utf16
