import CertExtensions.GeneralName

/-!
# Extensions of vendors

Versions, templates and capabilities that single vendors of certificates have defined.
-/

namespace CertExtensions

open Asn1 Outline

/-- The version of the software of an issuer, and what it can do. -/
structure EntrustVersion where
  version : String
  flags : Bits
  deriving DecidableEq, Repr

namespace EntrustVersion

def flagNames : List String := ["keyUpdateAllowed", "newExtensions", "pKIXCertificate"]

def taggedType : TaggedType EntrustVersion :=
  .sequence do
    let version ← anyString.required
    let flags ← bitString.required
    return ⟨version, flags⟩

def outline (info : EntrustVersion) : Outline :=
  line 0 ("Version: " ++ info.version) ++
  line 0 ("Information Flags: " ++ ", ".intercalate (info.flags.named flagNames))

end EntrustVersion

namespace CaVersion

/-- The lower sixteen bits count the certificates of an issuer, the upper ones its keys. -/
def outline (version : Nat) : Outline :=
  line 0 ("Certificate Index: " ++ toString (version % 65536)) ++
  line 0 ("Key Index: " ++ toString (version / 65536))

end CaVersion

/-- The template that a certificate was made from. -/
structure CertificateTemplate where
  template : ObjectId
  major : Nat
  minor? : Option Nat
  deriving DecidableEq, Repr

namespace CertificateTemplate

def taggedType : TaggedType CertificateTemplate :=
  .sequence do
    let template ← objectId.required
    let major ← uint64.required
    let minor? ← uint64.optional
    return ⟨template, major, minor?⟩

def outline (info : CertificateTemplate) : Outline :=
  line 0 ("Template ID: " ++ info.template.dotted) ++
  line 0 ("Major Version: " ++ toString info.major) ++
  field? 0 "Minor Version: " toString info.minor?

end CertificateTemplate

/-- An algorithm for mail, with the encodings of its parameters. -/
structure MailCapability where
  id : ObjectId
  parameters : List UInt8
  deriving DecidableEq, Repr

namespace MailCapability

def taggedType : TaggedType MailCapability :=
  .sequence do
    let id ← objectId.required
    let parameters ← remaining
    return ⟨id, parameters⟩

def listType : TaggedType (List MailCapability) := .sequenceOf taggedType.schema

def outline (number : Nat) (capability : MailCapability) : Outline :=
  line 0 ("S/MIME Capability [" ++ toString number ++ "]:") ++
  line 1 ("Object ID: " ++ capability.id.dotted) ++
  (if capability.parameters.isEmpty then []
    else line 1 ("Parameter: " ++ Hex.numeral capability.parameters))

def listOutline : List MailCapability → Outline := numbered outline

end MailCapability

end CertExtensions
