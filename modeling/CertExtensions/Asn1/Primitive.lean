import CertExtensions.Asn1.Schema

/-!
# Primitive types

The types whose content is not made of elements, apart from object identifiers, character strings and times:
truth values, integers of several widths, bit strings, octet strings and the null value. Each has one encoding
for each value.
-/

namespace CertExtensions.Asn1

/-! ### Truth values, null and octets -/

/-- One byte, 0 or 255. -/
def boolean : TaggedType Bool :=
  .ofContent .boolean fun
    | [0] => .ok false
    | [255] => .ok true
    | _ => .error .invalid

/-- The type with one value, which has no content. -/
def null : TaggedType Unit :=
  .ofContent .null fun
    | [] => .ok ()
    | _ => .error .invalid

def octetString : TaggedType (List UInt8) :=
  .ofContent .octetString .ok

/-! ### Integers -/

/-- Whether the first byte could be left out: it repeats the sign bit of the second. -/
def paddedInteger : List UInt8 → Bool
  | a :: b :: _ => (a == 0 && b < 128) || (a == 255 && 128 ≤ b)
  | _ => false

/-- A content is at least one byte and has no byte too many. -/
def checkInteger (content : List UInt8) : Except Fault Unit :=
  if content.isEmpty || paddedInteger content then .error .invalid else .ok ()

/-- The two's complement number of a content of at most eight bytes. -/
def decodeInt64 (content : List UInt8) : Except Fault Int := do
  checkInteger content
  if 8 < content.length then .error .integerOverflow else .ok (BigEndian.signedValue content)

/-- The number of a content that is not negative and below 2 to the 64; a sign is noticed first. -/
def decodeUInt64 (content : List UInt8) : Except Fault Nat :=
  match content with
  | [] => .error .invalid
  | b :: _ =>
    if 128 ≤ b then .error .integerOverflow
    else if paddedInteger content then .error .invalid
    else if wordLimit ≤ BigEndian.value content then .error .integerOverflow
    else .ok (BigEndian.value content)

def int64 : TaggedType Int :=
  .ofContent .integer decodeInt64

def uint64 : TaggedType Nat :=
  .ofContent .integer decodeUInt64

/-- Numbers of at least this size do not fit 32 bits. -/
def halfWordLimit : Nat := 0x100000000

def uint32 : TaggedType Nat :=
  .ofContent .integer fun content => do
    let n ← decodeUInt64 content
    if halfWordLimit ≤ n then .error .integerOverflow else .ok n

def enumerated : TaggedType Int :=
  .ofContent .enumerated decodeInt64

/-- An integer of any size, as its content: two's complement in the fewest bytes. -/
def integerOctets : TaggedType (List UInt8) :=
  .ofContent .integer fun content => do
    checkInteger content
    .ok content

/-- The content of the integer that bytes form as an unsigned number, in the fewest bytes. -/
def positiveContent (octets : List UInt8) : List UInt8 :=
  match octets.dropWhile (· == 0) with
  | [] => [0]
  | b :: rest => if b < 128 then b :: rest else 0 :: b :: rest

/-! ### Bit strings -/

/-- Bits in bytes, the first bit at the top of the first byte; bits of the last byte may be unused. -/
structure Bits where
  octets : List UInt8
  length : Nat
  deriving DecidableEq, Repr

/-- The content of a bit string: the number of unused bits, then the bytes; unused bits are zero. -/
def decodeBits : List UInt8 → Except Fault Bits
  | [] => .error .invalid
  | unused :: octets =>
    if 7 < unused ∨ (unused ≠ 0 ∧ octets = []) then .error .invalid
    else if (octets.getLastD 0).toNat % Nat.pow 2 unused.toNat ≠ 0 then .error .invalid
    else .ok ⟨octets, 8 * octets.length - unused.toNat⟩

def bitString : TaggedType Bits :=
  .ofContent .bitString decodeBits

/-- Whether the bit is there and set. -/
def Bits.isSet (bits : Bits) (index : Nat) : Bool :=
  match bits.octets[index / 8]? with
  | none => false
  | some octet => octet.toNat.testBit (7 - index % 8)

/-- The names of the bits that are set, where `names` are those of the first bits. -/
def Bits.named (names : List String) (bits : Bits) : List String :=
  (names.take bits.length).zipIdx.filterMap fun (name, index) =>
    if bits.isSet index then some name else none

/-- The base 2 digits of a byte. -/
def octetDigits (octet : UInt8) : List Char :=
  (List.range 8).map fun i => if octet.toNat.testBit (7 - i) then '1' else '0'

/-- The bytes of the bits as a base 2 numeral without leading zeros; zero is one digit. -/
def Bits.binary (bits : Bits) : String :=
  let digits := (bits.octets.flatMap octetDigits).dropWhile (· == '0')
  String.ofList (if digits.isEmpty then ['0'] else digits)

end CertExtensions.Asn1
