import CertExtensions.GeneralName

/-!
# Revocation

Extensions of revocation lists and of their entries: the number of a list, why and since when a certificate is
revoked, what to do with one on hold, and where the lists are distributed.
-/

namespace CertExtensions

open Asn1 Outline

/-! ### Reasons -/

inductive RevocationReason where
  | unspecified
  | keyCompromise
  | caCompromise
  | affiliationChanged
  | superseded
  | cessationOfOperation
  | certificateHold
  | removeFromCrl
  | privilegeWithdrawn
  | aaCompromise
  deriving DecidableEq, Repr

namespace RevocationReason

def all : List RevocationReason := [
  unspecified, keyCompromise, caCompromise, affiliationChanged, superseded, cessationOfOperation,
  certificateHold, removeFromCrl, privilegeWithdrawn, aaCompromise]

/-- The number that stands for a reason; 7 stands for none. -/
def code : RevocationReason → Nat
  | unspecified => 0
  | keyCompromise => 1
  | caCompromise => 2
  | affiliationChanged => 3
  | superseded => 4
  | cessationOfOperation => 5
  | certificateHold => 6
  | removeFromCrl => 8
  | privilegeWithdrawn => 9
  | aaCompromise => 10

def name : RevocationReason → String
  | unspecified => "unspecified"
  | keyCompromise => "keyCompromise"
  | caCompromise => "cACompromise"
  | affiliationChanged => "affiliationChanged"
  | superseded => "superseded"
  | cessationOfOperation => "cessationOfOperation"
  | certificateHold => "certificateHold"
  | removeFromCrl => "removeFromCRL"
  | privilegeWithdrawn => "privilegeWithdrawn"
  | aaCompromise => "aACompromise"

def ofCode? (n : Int) : Option RevocationReason :=
  all.find? fun reason => (reason.code : Int) = n

end RevocationReason

namespace ReasonCode

/-- The reason, or its number if it stands for none. -/
def outline (code : Int) : Outline :=
  match RevocationReason.ofCode? code with
  | some reason => line 0 reason.name
  | none => line 0 ("Unrecognised reason code (" ++ toString code ++ ")")

end ReasonCode

namespace ReasonFlags

/-- The reasons that a set of bits stands for. -/
def names : List String := [
  "unused", "keyCompromise", "cACompromise", "affiliationChanged", "superseded", "cessationOfOperation",
  "certificateHold", "privilegeWithdrawn", "aACompromise"]

end ReasonFlags

/-! ### Numbers, holds and dates -/

namespace CrlNumber

def outline (number : List UInt8) : Outline :=
  line 0 (Hex.numeral number)

end CrlNumber

namespace HoldInstruction

def outline (code : ObjectId) : Outline :=
  line 0 (code.nameIn ObjectId.holdInstructions)

end HoldInstruction

/-- A point in time on a line of its own. -/
def Moment.outline (moment : Moment) : Outline :=
  line 0 moment.text

/-! ### Distribution points -/

/-- The name of a distribution point: names of its own, or what comes behind the name of the issuer. -/
inductive DistributionPointName where
  | full (names : List GeneralName)
  | relative (name : RelativeName)
  deriving DecidableEq, Repr

namespace DistributionPointName

def schema : Schema DistributionPointName :=
  .choice [
    (GeneralName.listType.map full).implicit (.context 0),
    (RelativeName.taggedType.map relative).implicit (.context 1)]

def outline (depth : Nat) (name : DistributionPointName) : Outline :=
  line depth "Distribution Point Name:" ++
  match name with
  | full names => line (depth + 1) "Full Name:" ++ GeneralName.outline (depth + 2) names
  | relative attrs =>
    line (depth + 1) "Name Relative to CRL Issuer:" ++
    lines (depth + 2) (attrs.map fun attr =>
      Attribute.keyword attr.type ++ "=" ++ Attribute.valueText attr.type attr.value)

end DistributionPointName

/-- A place where a revocation list is distributed: its name, the reasons that the list covers, its issuer. -/
structure DistributionPoint where
  name? : Option DistributionPointName
  reasons? : Option Bits
  issuer? : Option (List GeneralName)
  deriving DecidableEq, Repr

namespace DistributionPoint

def taggedType : TaggedType DistributionPoint :=
  .sequence do
    let name? ← (TaggedType.explicit (.context 0) DistributionPointName.schema).optional
    let reasons? ← (bitString.implicit (.context 1)).optional
    let issuer? ← (GeneralName.listType.implicit (.context 2)).optional
    return ⟨name?, reasons?, issuer?⟩

def listType : TaggedType (List DistributionPoint) := .sequenceOf taggedType.schema

def outline (title : String) (number : Nat) (point : DistributionPoint) : Outline :=
  line 0 (title ++ " [" ++ toString number ++ "]:") ++
  (match point.name? with
    | none => []
    | some name => name.outline 1) ++
  (match point.reasons? with
    | none => []
    | some reasons =>
      line 1 "Reasons:" ++ lines 2 (reasons.named ReasonFlags.names)) ++
  (match point.issuer? with
    | none => []
    | some names => line 1 "CRL Issuer:" ++ GeneralName.outline 2 names)

def listOutline (title : String) : List DistributionPoint → Outline :=
  numbered (outline title)

end DistributionPoint

/-- What a revocation list covers, and where it is distributed. -/
structure IssuingDistributionPoint where
  name? : Option DistributionPointName
  userCertificates : Bool
  authorityCertificates : Bool
  someReasons? : Option Bits
  indirect : Bool
  attributeCertificates : Bool
  deriving DecidableEq, Repr

namespace IssuingDistributionPoint

/-- A truth value under a context tag, false if it is missing. -/
def flag (number : Nat) : Fields Bool := do
  let value? ← (boolean.implicit (.context number)).optional
  return value?.getD false

def taggedType : TaggedType IssuingDistributionPoint :=
  .sequence do
    let name? ← (TaggedType.explicit (.context 0) DistributionPointName.schema).optional
    let userCertificates ← flag 1
    let authorityCertificates ← flag 2
    let someReasons? ← (bitString.implicit (.context 3)).optional
    let indirect ← flag 4
    let attributeCertificates ← flag 5
    return ⟨name?, userCertificates, authorityCertificates, someReasons?, indirect,
      attributeCertificates⟩

def outline (point : IssuingDistributionPoint) : Outline :=
  (match point.name? with
    | none => []
    | some name => name.outline 0) ++
  line 0 ("Only Contains User Certificates: " ++ toString point.userCertificates) ++
  line 0 ("Only Contains CA Certificates: " ++ toString point.authorityCertificates) ++
  (match point.someReasons? with
    | none => []
    | some reasons =>
      line 0 "Only Some Reasons:" ++
      lines 1 (reasons.named ReasonFlags.names)) ++
  line 0 ("Indirect CRL: " ++ toString point.indirect) ++
  line 0 ("Only Contains Attribute Certificates: " ++ toString point.attributeCertificates)

end IssuingDistributionPoint

end CertExtensions
