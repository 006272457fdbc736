import CertExtensions.Asn1.CharacterString
import CertExtensions.Asn1.Time
import CertExtensions.Hex
import CertExtensions.Oid.Names

/-!
# Distinguished names

A name is a sequence of relative names, each a set of attributes with a type and an encoded value. Its text has a
comma between relative names, a plus sign between the attributes of one, and an equals sign between type and
value; values that are character strings are escaped where they could be taken for more than a value, all others
are shown in hex behind a number sign.
-/

namespace CertExtensions

open Asn1

/-- An attribute, its value as an encoded element. -/
structure Attribute where
  type : ObjectId
  value : List UInt8
  deriving DecidableEq, Repr

abbrev RelativeName := List Attribute

structure Name where
  relativeNames : List RelativeName
  deriving DecidableEq, Repr

/-! ### Attribute types -/

namespace Attribute

/-- The attribute types with a short name. -/
def keywords : List (List Nat × String) := [
  ([2, 5, 4, 3], "CN"),
  ([2, 5, 4, 4], "SURNAME"),
  ([2, 5, 4, 5], "SERIALNUMBER"),
  ([2, 5, 4, 6], "C"),
  ([2, 5, 4, 7], "L"),
  ([2, 5, 4, 8], "ST"),
  ([2, 5, 4, 9], "STREET"),
  ([2, 5, 4, 10], "O"),
  ([2, 5, 4, 11], "OU"),
  ([2, 5, 4, 12], "T"),
  ([2, 5, 4, 17], "POSTALCODE"),
  ([2, 5, 4, 42], "GIVENNAME"),
  ([2, 5, 4, 43], "INITIALS"),
  ([2, 5, 4, 44], "GENERATION"),
  ([2, 5, 4, 46], "DNQ"),
  ([2, 5, 4, 65], "PSEUDONYM"),
  ([0, 9, 2342, 19200300, 100, 1, 25], "DC"),
  ([0, 9, 2342, 19200300, 100, 1, 1], "UID"),
  ([1, 2, 840, 113549, 1, 9, 1], "E"),
  ([1, 2, 840, 113549, 1, 9, 2], "unstructuredName"),
  ([1, 2, 840, 113549, 1, 9, 8], "unstructuredAddress"),
  ([1, 3, 6, 1, 5, 5, 7, 9, 1], "DateOfBirth"),
  ([1, 3, 6, 1, 5, 5, 7, 9, 2], "PlaceOfBirth"),
  ([1, 3, 6, 1, 5, 5, 7, 9, 3], "Gender"),
  ([1, 3, 6, 1, 5, 5, 7, 9, 4], "CountryOfCitizenship"),
  ([1, 3, 6, 1, 5, 5, 7, 9, 5], "CountryOfResidence")]

/-- The attribute type whose values are times. -/
def dateOfBirth : ObjectId := ⟨[1, 3, 6, 1, 5, 5, 7, 9, 1]⟩

/-- The short name of a type, its dotted text if it has none. -/
def keyword (type : ObjectId) : String := type.nameIn keywords

/-- The text of the value of an attribute outside of a name. A value that does not have the syntax of its type,
and one of a type that is not known, is shown as a number. -/
def valueText (type : ObjectId) (value : List UInt8) : String :=
  let text? : Except Fault String :=
    if type = dateOfBirth then (generalizedTime.whole value).map Moment.text
    else if (keywords.lookup type.arcs).isSome then anyString.whole value
    else .error .invalid
  match text? with
  | .ok text => text
  | .error _ => Hex.numeral value

end Attribute

/-! ### Reading -/

def Attribute.taggedType : TaggedType Attribute :=
  .sequence do
    let type ← objectId.required
    let value ← Schema.any.required
    return ⟨type, value⟩

/-- A relative name: its attributes in the order of a set. -/
def RelativeName.taggedType : TaggedType RelativeName :=
  TaggedType.setOf Attribute.taggedType.schema

def Name.taggedType : TaggedType Name :=
  (TaggedType.sequenceOf RelativeName.taggedType.schema).map Name.mk

/-! ### Texts -/

namespace Name

/-- Whether a character is escaped wherever it stands in a value. -/
def isSpecial (c : Char) : Bool :=
  c == ',' || c == '+' || c == '"' || c == '\\' || c == '<' || c == '>' || c == ';' || c == '='

/-- The escaped form of all characters but the first; a blank at the end is escaped. -/
def escapeRest : List Char → List Char
  | [] => []
  | [c] => if isSpecial c || c == ' ' then ['\\', c] else [c]
  | c :: rest => if isSpecial c then '\\' :: c :: escapeRest rest else c :: escapeRest rest

/-- The escaped form of a value; a blank and a number sign at the start are escaped. -/
def escape : List Char → List Char
  | [] => []
  | c :: rest =>
    if isSpecial c || c == '#' || c == ' ' then '\\' :: c :: escapeRest rest else c :: escapeRest rest

/-- The text of a value inside a name. -/
def valueText (value : List UInt8) : List Char :=
  match anyString.whole value with
  | .ok text => escape text.toList
  | .error _ => '#' :: Hex.digits value

def attributeText (attr : Attribute) : List Char :=
  (Attribute.keyword attr.type).toList ++ '=' :: valueText attr.value

/-- The attributes of a relative name. -/
def relativeText (relative : RelativeName) : List Char :=
  Text.join '+' (relative.map attributeText)

def text (name : Name) : String :=
  String.ofList (Text.join ',' (name.relativeNames.map relativeText))

end Name

end CertExtensions
