import CertExtensions.Asn1.Tag
import CertExtensions.BigEndian

/-!
# Element headers

An element starts with its identifier (class, form and tag number) and its length. Both readers give what
follows them; `encodeIdentifier` and `encodeLength` write the same two parts in the fewest bytes.
-/

namespace CertExtensions.Asn1

/-- Numbers of at least this size do not fit the 64 bit words that encodings are limited to. -/
def wordLimit : Nat := 0x10000000000000000

/-! ### Base 128 -/

/-- Reads base 128 digits, the last one below 128, onto the number `acc`. -/
def readBase128 (acc : Nat) : List UInt8 → Except Fault (Nat × List UInt8)
  | [] => .error .eof
  | b :: rest =>
    if wordLimit ≤ acc * 128 then .error .integerOverflow
    else if b < 128 then .ok (acc * 128 + b.toNat, rest)
    else readBase128 (acc * 128 + (b.toNat - 128)) rest

/-- The base 128 digits of a number, each with the top bit set, at most `fuel` of them. -/
def base128Digits : Nat → Nat → List UInt8
  | 0, _ => []
  | fuel + 1, n => if n = 0 then [] else base128Digits fuel (n / 128) ++ [UInt8.ofNat (128 + n % 128)]

/-- The shortest base 128 form of a number. -/
def encodeBase128 (n : Nat) : List UInt8 :=
  base128Digits n (n / 128) ++ [UInt8.ofNat (n % 128)]

/-! ### Identifiers -/

structure Identifier where
  tag : Tag
  constructed : Bool
  deriving DecidableEq, Repr

/-- The class that the top two bits of an identifier give. -/
def TagClass.ofBits : Nat → TagClass
  | 0 => .universal
  | 1 => .application
  | 2 => .contextSpecific
  | _ => .exclusive

def TagClass.bits : TagClass → Nat
  | .universal => 0
  | .application => 1
  | .contextSpecific => 2
  | .exclusive => 3

/-- Reads an identifier; a tag number from 31 on stands in base 128 behind the first byte. -/
def readIdentifier : List UInt8 → Except Fault (Identifier × List UInt8)
  | [] => .error .eof
  | b :: rest =>
    let cls := TagClass.ofBits (b.toNat / 64)
    let constructed := b.toNat / 32 % 2 == 1
    if b.toNat % 32 = 31 then
      match readBase128 0 rest with
      | .error fault => .error fault
      | .ok (number, rest) =>
        if number < 31 then .error .invalid else .ok (⟨⟨cls, number⟩, constructed⟩, rest)
    else .ok (⟨⟨cls, b.toNat % 32⟩, constructed⟩, rest)

def encodeIdentifier (id : Identifier) : List UInt8 :=
  let front := 64 * id.tag.cls.bits + (if id.constructed then 32 else 0)
  if id.tag.number < 31 then [UInt8.ofNat (front + id.tag.number)]
  else UInt8.ofNat (front + 31) :: encodeBase128 id.tag.number

/-! ### Lengths -/

/-- A length and whether it was given in the long form, which counts its own bytes. -/
structure Length where
  value : Nat
  long : Bool
  deriving DecidableEq, Repr

/-- Reads `n` more bytes onto a length. -/
def readLengthBytes : Nat → Nat → List UInt8 → Except Fault (Nat × List UInt8)
  | 0, acc, rest => .ok (acc, rest)
  | _ + 1, _, [] => .error .eof
  | n + 1, acc, b :: rest =>
    if wordLimit ≤ acc * 256 then .error .eof else readLengthBytes n (acc * 256 + b.toNat) rest

/-- Reads a length; the indefinite form and a first byte of 255 are invalid. -/
def readLength : List UInt8 → Except Fault (Length × List UInt8)
  | [] => .error .eof
  | b :: rest =>
    if b < 128 then .ok (⟨b.toNat, false⟩, rest)
    else if b = 128 ∨ b = 255 then .error .invalid
    else
      match readLengthBytes (b.toNat - 128) 0 rest with
      | .error fault => .error fault
      | .ok (n, rest) => .ok (⟨n, true⟩, rest)

/-- The shortest form of a length. -/
def encodeLength (n : Nat) : List UInt8 :=
  if n < 128 then [UInt8.ofNat n]
  else
    let bytes := BigEndian.shortest n
    UInt8.ofNat (128 + bytes.length) :: bytes

end CertExtensions.Asn1
