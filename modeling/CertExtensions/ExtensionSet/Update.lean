import CertExtensions.ExtensionSet.Basic
import CertExtensions.Issuer

/-!
# New key identifiers

When a certificate is issued anew, the extensions that identify keys are those of the new subject and the new issuer,
and all other extensions stay. An authority key identifier keeps the kind of its fields: it has a key identifier
again if it had one, and it names the issuer's certificate again, or for the first time where it had no key
identifier. All new values are found before the set changes; only an old authority key identifier that cannot be read
makes the update fail.
-/

namespace CertExtensions

open Asn1

namespace AuthorityKeyIdentifier

/-- Whether the identifier that takes the place of this one identifies the key. -/
def keepsKey (old : AuthorityKeyIdentifier) : Bool :=
  old.keyIdentifier?.isSome

/-- Whether the identifier that takes the place of this one names the issuer's certificate. -/
def namesCertificate (old : AuthorityKeyIdentifier) : Bool :=
  old.keyIdentifier?.isNone || old.serial?.isSome

end AuthorityKeyIdentifier

namespace Issuer

/-- The encoded fields that name the certificate of the issuer: the issuer's name as the one general name, and
the serial number. -/
def certificateFields (issuer : Issuer) : List UInt8 :=
  constructed (.context 1) (constructed (.context 4) issuer.name.encoding) ++
    primitive (.context 2) (positiveContent issuer.serial.octets)

/-- The encoded authority key identifier of the issuer with the fields that follow from the old one. -/
def authorityKeyIdentifier (issuer : Issuer) (old : AuthorityKeyIdentifier) : List UInt8 :=
  constructed .sequence <|
    (if old.keepsKey then primitive (.context 0) issuer.key.longIdentifier else []) ++
      (if old.namesCertificate then issuer.certificateFields else [])

end Issuer

def PublicKey.subjectKeyIdentifier (key : PublicKey) : List UInt8 :=
  SubjectKeyIdentifier.encode ⟨key.longIdentifier⟩

namespace Extension

/-- The authority key identifier that the value holds. -/
def readAuthorityKeyIdentifier (value : List UInt8) : Except Fault AuthorityKeyIdentifier := do
  AuthorityKeyIdentifier.taggedType.whole (← octetString.whole value)

/-- The new value under the identifier of the extension, if the extension identifies a key. -/
def renewal? (subject : PublicKey) (issuer : Issuer) (extension : Extension) :
    Except Fault (Option Partition.Entry) :=
  match extension.type? with
  | some .subjectKeyIdentifier =>
    .ok (some ⟨ExtensionType.subjectKeyIdentifier.identifier,
      primitive .octetString subject.subjectKeyIdentifier⟩)
  | some .authorityKeyIdentifier => do
    let old ← readAuthorityKeyIdentifier extension.value
    return some ⟨ExtensionType.authorityKeyIdentifier.identifier,
      primitive .octetString (issuer.authorityKeyIdentifier old)⟩
  | _ => .ok none

end Extension

namespace ExtensionSet

/-! ### Work in place -/

/-- Work on a set in place; what it has done to the set until then stays where it fails. -/
abbrev InPlace := ExceptT Error (StateM ExtensionSet)

/-- How the work on a set ends, and the set that it leaves. -/
def InPlace.on {α : Type} (work : InPlace α) (set : ExtensionSet) : Except Error α × ExtensionSet :=
  work.run.run set

/-- Puts the new value of one more extension, if it gets one, behind the values found before. -/
def findRenewal (subject : PublicKey) (issuer : Issuer) (found : List Partition.Entry) (extension : Extension) :
    InPlace (List Partition.Entry) :=
  match extension.renewal? subject issuer with
  | .error fault => throw (.decode fault)
  | .ok renewal? => return found ++ renewal?.toList

/-- Gives an identifier its new value. -/
def writeRenewal (entry : Partition.Entry) : InPlace Unit :=
  modify fun set => set.replace entry.identifier entry.value

/-- Turns the set into that for a new certificate of the subject's key by the issuer: goes through the extensions for
their new values, then writes the values that it has found. -/
def updateInPlace (subject : PublicKey) (issuer : Issuer) : InPlace Unit := do
  let set ← get
  let found ← set.toList.foldlM (findRenewal subject issuer) []
  found.forM writeRenewal

/-- The set for a new certificate of the subject's key by the issuer. -/
def update (set : ExtensionSet) (subject : PublicKey) (issuer : Issuer) : Except Error ExtensionSet :=
  match (updateInPlace subject issuer).on set with
  | (.ok (), updated) => .ok updated
  | (.error error, _) => .error error

end ExtensionSet

end CertExtensions
