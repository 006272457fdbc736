import CertExtensions.GeneralName

/-!
# Key identifiers

The extensions that name the key of a certificate's subject and the key of its issuer. The second may name the
issuer's certificate as well, by the issuer's name and the serial number.
-/

namespace CertExtensions

open Asn1 Outline

structure SubjectKeyIdentifier where
  keyIdentifier : List UInt8
  deriving DecidableEq, Repr

namespace SubjectKeyIdentifier

def taggedType : TaggedType SubjectKeyIdentifier :=
  octetString.map mk

def outline (id : SubjectKeyIdentifier) : Outline :=
  line 0 ("Key Identifier: " ++ Hex.numeral id.keyIdentifier)

def encode (id : SubjectKeyIdentifier) : List UInt8 :=
  primitive .octetString id.keyIdentifier

end SubjectKeyIdentifier

/-- The identifier of the issuer's key, the issuer's names and the serial number of the issuer's certificate as
the content of an integer; each may be missing. -/
structure AuthorityKeyIdentifier where
  keyIdentifier? : Option (List UInt8)
  issuer? : Option (List GeneralName)
  serial? : Option (List UInt8)
  deriving DecidableEq, Repr

namespace AuthorityKeyIdentifier

def taggedType : TaggedType AuthorityKeyIdentifier :=
  .sequence do
    let keyIdentifier? ← (octetString.implicit (.context 0)).optional
    let issuer? ← (GeneralName.listType.implicit (.context 1)).optional
    let serial? ← (integerOctets.implicit (.context 2)).optional
    return ⟨keyIdentifier?, issuer?, serial?⟩

def outline (id : AuthorityKeyIdentifier) : Outline :=
  field? 0 "Key Identifier: " Hex.numeral id.keyIdentifier? ++
  (match id.issuer? with
    | none => []
    | some names => line 0 "Certificate Issuer:" ++ GeneralName.outline 1 names) ++
  field? 0 "Certificate Serial Number: " Hex.numeral id.serial?

end AuthorityKeyIdentifier

end CertExtensions
