import CertExtensions.IpAddress
import CertExtensions.Name
import CertExtensions.Outline

/-!
# General names

A general name is one of nine kinds of names, told apart by their context tags.
-/

namespace CertExtensions

open Asn1

/-- The name of something in one of nine forms. -/
inductive GeneralName where
  /-- a form that an object identifier tells, with the encoded value -/
  | other (type : ObjectId) (value : List UInt8)
  | mailbox (address : String)
  | dns (name : String)
  /-- an address of the message handling service, kept encoded -/
  | x400 (encoding : List UInt8)
  | directory (name : Name)
  | ediParty (assigner? : Option String) (party : String)
  | uri (target : String)
  | ip (octets : List UInt8)
  | registered (id : ObjectId)
  deriving DecidableEq, Repr

namespace GeneralName

/-! ### Reading -/

/-- A form told by an object identifier, with its value inside a tag of its own. -/
def otherType : TaggedType GeneralName :=
  .sequence do
    let type ← objectId.required
    let value ← (TaggedType.explicit (.context 0) Schema.any).required
    return .other type value

/-- An optional assigner and a party. -/
def ediPartyType : TaggedType GeneralName :=
  .sequence do
    let assigner? ← (TaggedType.explicit (.context 0) anyString).optional
    let party ← (TaggedType.explicit (.context 1) anyString).required
    return .ediParty assigner? party

/-- The nine forms under their tags. -/
def types : List (TaggedType GeneralName) := [
  otherType.implicit (.context 0),
  (ia5String.map mailbox).implicit (.context 1),
  (ia5String.map dns).implicit (.context 2),
  (TaggedType.undecoded (.context 3)).map x400,
  TaggedType.explicit (.context 4) (Name.taggedType.map directory).schema,
  ediPartyType.implicit (.context 5),
  (ia5String.map uri).implicit (.context 6),
  (octetString.map ip).implicit (.context 7),
  (objectId.map registered).implicit (.context 8)]

def schema : Schema GeneralName := .choice types

def listType : TaggedType (List GeneralName) := .sequenceOf schema

/-! ### Texts -/

/-- The text of another form: a user principal name as such, all others as a number. -/
def otherText (type : ObjectId) (value : List UInt8) : String :=
  let numeral := "Other Name: " ++ type.dotted ++ ": " ++ Hex.numeral value
  if type = ObjectId.userPrincipalName then
    match utf8String.whole value with
    | .ok principal => "Other Name: UPN: " ++ principal
    | .error _ => numeral
  else numeral

def phrase : GeneralName → Phrase
  | .other type value => .plain (otherText type value)
  | .mailbox address => .plain ("RFC 822 Name: " ++ address)
  | .dns name => .plain ("DNS Name: " ++ name)
  | .x400 encoding => .plain ("X.400 Address: " ++ Hex.numeral encoding)
  | .directory name => .plain ("Directory Name: " ++ name.text)
  | .ediParty (some assigner) party => .plain ("EDI Party Name: " ++ party ++ " (" ++ assigner ++ ")")
  | .ediParty none party => .plain ("EDI Party Name: " ++ party)
  | .uri target => .ofUri "Uniform Resource Identifier: " target
  | .ip octets => .plain ("IP Address: " ++ IpAddress.text octets)
  | .registered id => .plain ("Registered ID: " ++ id.dotted)

/-- General names, a line each. -/
def outline (depth : Nat) (names : List GeneralName) : Outline :=
  names.map fun name => ⟨depth, name.phrase⟩

end GeneralName

end CertExtensions
