/-!
# Tags and faults

A tag is a class and a number; whether an element is primitive or constructed is no part of it. A fault is
the reason for which a byte string is not the encoding that was expected.
-/

namespace CertExtensions.Asn1

inductive TagClass where
  | universal
  | application
  | contextSpecific
  | exclusive
  deriving DecidableEq, Repr

/-- What tells the kind of an element. -/
structure Tag where
  cls : TagClass
  number : Nat
  deriving DecidableEq, Repr

namespace Tag

/-- A tag of the standard's own types. -/
def universal (number : Nat) : Tag := ⟨.universal, number⟩

/-- A tag whose meaning the enclosing structure gives. -/
def context (number : Nat) : Tag := ⟨.contextSpecific, number⟩

def boolean : Tag := universal 1
def integer : Tag := universal 2
def bitString : Tag := universal 3
def octetString : Tag := universal 4
def null : Tag := universal 5
def objectIdentifier : Tag := universal 6
def enumerated : Tag := universal 10
def utf8String : Tag := universal 12
def sequence : Tag := universal 16
def set : Tag := universal 17
def numericString : Tag := universal 18
def printableString : Tag := universal 19
def teletexString : Tag := universal 20
def ia5String : Tag := universal 22
def utcTime : Tag := universal 23
def generalizedTime : Tag := universal 24
def visibleString : Tag := universal 26
def generalString : Tag := universal 27
def universalString : Tag := universal 28
def bmpString : Tag := universal 30

end Tag

/-- Why a byte string is not the expected encoding. -/
inductive Fault where
  /-- the bytes end inside an element or where one is required -/
  | eof
  /-- bytes are left where the structure ends -/
  | extra
  /-- a number does not fit the width it is read at -/
  | integerOverflow
  /-- any other violation -/
  | invalid
  deriving DecidableEq, Repr

/-- The name of a fault in messages. -/
def Fault.name : Fault → String
  | .eof => "Eof"
  | .extra => "Extra"
  | .integerOverflow => "IntegerOverflow"
  | .invalid => "Invalid"

end CertExtensions.Asn1
