import CertExtensions.GeneralName

/-!
# Access to information, and attributes of a subject

Where information about an issuer or a subject is to be had, and directory attributes with any number of values.
-/

namespace CertExtensions

open Asn1 Outline

/-- A method of access and the place that it leads to. -/
structure AccessDescription where
  method : ObjectId
  location : GeneralName
  deriving DecidableEq, Repr

namespace AccessDescription

def taggedType : TaggedType AccessDescription :=
  .sequence do
    let method ← objectId.required
    let location ← GeneralName.schema.required
    return ⟨method, location⟩

def listType : TaggedType (List AccessDescription) := .sequenceOf taggedType.schema

def outline (title : String) (number : Nat) (description : AccessDescription) : Outline :=
  line 0 (title ++ " [" ++ toString number ++ "]:") ++
  line 1 ("Access Method: " ++ description.method.nameIn ObjectId.accessMethods) ++
  line 1 "Access Location:" ++
  item 2 description.location.phrase

def listOutline (title : String) : List AccessDescription → Outline :=
  numbered (outline title)

end AccessDescription

/-- A directory attribute with its encoded values. -/
structure DirectoryAttribute where
  type : ObjectId
  values : List (List UInt8)
  deriving DecidableEq, Repr

namespace DirectoryAttribute

def taggedType : TaggedType DirectoryAttribute :=
  .sequence do
    let type ← objectId.required
    let values ← (TaggedType.setOf Schema.any).required
    return ⟨type, values⟩

/-- Each value of the attribute with the dotted type in front. -/
def outline (attr : DirectoryAttribute) : Outline :=
  lines 0 (attr.values.map fun value => attr.type.dotted ++ "=" ++ Attribute.valueText attr.type value)

def listOutline (attrs : List DirectoryAttribute) : Outline :=
  attrs.flatMap outline

/-- Attributes in any order. -/
def sequenceType : TaggedType (List DirectoryAttribute) := .sequenceOf taggedType.schema

/-- Attributes in the order of a set. -/
def setType : TaggedType (List DirectoryAttribute) := .setOf taggedType.schema

end DirectoryAttribute

end CertExtensions
