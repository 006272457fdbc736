import CertExtensions.Asn1.Primitive
import CertExtensions.Text.Utf16
import CertExtensions.Text.Utf8

/-!
# Character strings

Nine types of character strings. The content of each is read by the rule of its type; `anyString` takes
whichever of them stands at a place.
-/

namespace CertExtensions.Asn1

open CertExtensions.Text

/-! ### Contents -/

/-- The text of bytes that each encode one Latin-1 character. -/
def latin1 (content : List UInt8) : String :=
  String.ofList (content.map fun b => Char.ofNat b.toNat)

def decodeAscii (content : List UInt8) : Except Fault String :=
  if content.all (· < 128) then .ok (latin1 content) else .error .invalid

/-- Letters, digits, the blank and eleven signs. -/
def isPrintable (b : UInt8) : Bool :=
  let c := Char.ofNat b.toNat
  c.isAlphanum || c == ' ' || (0x27 ≤ b && b ≤ 0x3A && b != 0x2A) || c == '='

/-- Characters of the printable set. -/
def decodePrintable (content : List UInt8) : Except Fault String :=
  if content.all isPrintable then .ok (latin1 content) else .error .invalid

def decodeUtf8 (content : List UInt8) : Except Fault String :=
  match Utf8.decode? content with
  | some text => .ok text
  | none => .error .invalid

/-- Characters in UTF-16, two bytes a unit. -/
def decodeUtf16 (content : List UInt8) : Except Fault String :=
  if content.length % 2 ≠ 0 then .error .invalid
  else
    match Utf16.decode? (Utf16.unitsOfBytes content) with
    | some text => .ok (String.ofList text)
    | none => .error .invalid

/-- Characters in UTF-32: four bytes each, all bytes used up. -/
def decodeUtf32Chars : List UInt8 → Option (List Char)
  | [] => some []
  | a :: b :: c :: d :: rest => do
    let char ← Utf16.scalar? (BigEndian.value [a, b, c, d])
    let chars ← decodeUtf32Chars rest
    some (char :: chars)
  | _ => none

def decodeUtf32 (content : List UInt8) : Except Fault String :=
  match decodeUtf32Chars content with
  | some text => .ok (String.ofList text)
  | none => .error .invalid

/-! ### Types -/

def utf8String : TaggedType String := .ofContent .utf8String decodeUtf8

def printableString : TaggedType String := .ofContent .printableString decodePrintable

def ia5String : TaggedType String := .ofContent .ia5String decodeAscii

def bmpString : TaggedType String := .ofContent .bmpString decodeUtf16

def universalString : TaggedType String := .ofContent .universalString decodeUtf32

/-- A string type whose bytes are taken for Latin-1. -/
def latin1String (tag : Tag) : TaggedType String := .ofContent tag fun content => .ok (latin1 content)

/-- A character string of any of the nine types. -/
def anyString : Schema String :=
  .choice [utf8String, printableString, ia5String, bmpString, universalString,
    latin1String .teletexString, latin1String .numericString, latin1String .visibleString,
    latin1String .generalString]

end CertExtensions.Asn1
