import CertExtensions.Certificate.Basic
import CertExtensions.Error
import CertExtensions.ExtensionSet.Basic

/-!
# Encoded sets

The sequence of extensions that certificates, requests and revocation lists hold, and the sets that are taken out of
certificates and requests. Where an encoding has several extensions with one identifier, the last one counts.
-/

namespace CertExtensions

open Asn1

/-! ### One extension -/

namespace Extension

/-- An extension, its value wrapped into an octet string of its own. -/
def wrapped (id : ObjectId) (critical : Bool) (octets : List UInt8) : Extension :=
  ⟨id.dotted, critical, primitive .octetString octets⟩

def taggedType : TaggedType Extension :=
  .sequence do
    let id ← objectId.required
    let critical? ← boolean.optional
    let octets ← octetString.required
    return wrapped id (critical?.getD false) octets

def objectId (extension : Extension) : Except Error ObjectId :=
  match ObjectId.ofDotted? extension.identifier with
  | some id => .ok id
  | none => .error (.identifier extension.identifier)

/-- The encoded form of an extension behind its encoded identifier. Criticality is written only where it is true, and
the value, which is an encoding, as it is. -/
def encode (identifier : List UInt8) (extension : Extension) : List UInt8 :=
  constructed .sequence <|
    primitive .objectIdentifier identifier ++
      (if extension.critical then primitive .boolean [255] else []) ++ extension.value

end Extension

/-- The extension of a certificate, if its identifier can be read. -/
def CertifiedExtension.wrapped? (extension : CertifiedExtension) : Option Extension :=
  extension.objectId?.map fun id => Extension.wrapped id extension.critical extension.octets

namespace ExtensionSet

/-! ### Sequences of extensions -/

/-- The set of an encoded sequence of extensions. -/
def fromDer (bytes : List UInt8) : Except Error ExtensionSet :=
  match (TaggedType.sequenceOf Extension.taggedType.schema).whole bytes with
  | .ok extensions => .ok (empty.insertAll extensions)
  | .error fault => .error (.decode fault)

/-- The encoded form of an extension with its object identifier. -/
def elementDer (entry : ObjectId × Extension) : Except Error (List UInt8) :=
  match entry.1.encode? with
  | some identifier => .ok (entry.2.encode identifier)
  | none => .error .arcOverflow

/-- The encoded sequence of the extensions. All identifiers are read before any of them is encoded. -/
def toDer (set : ExtensionSet) : Except Error (List UInt8) := do
  let entries ← set.toList.mapM fun extension => do
    return (← extension.objectId, extension)
  let elements ← entries.mapM elementDer
  return constructed .sequence elements.flatten

/-! ### Certificates and requests -/

/-- The set of the extensions of a certificate or a request, if all their identifiers can be read. -/
def ofCertified? (extensions : List CertifiedExtension) : Option ExtensionSet :=
  (extensions.mapM CertifiedExtension.wrapped?).map empty.insertAll

def ofCertificate (bytes : List UInt8) : Except Error ExtensionSet :=
  match (Certificate.read? bytes).bind fun certificate => ofCertified? certificate.extensions with
  | some set => .ok set
  | none => .error .certificate

/-- The extensions that a request for a certificate asks for. -/
def ofRequest (bytes : List UInt8) : Except Error ExtensionSet :=
  match (CertificateRequest.read? bytes).bind fun request => ofCertified? request.extensions with
  | some set => .ok set
  | none => .error .request

/-- The extensions of the certificate in the first block of a text, whatever the block's label. -/
def ofCertificateText (text : String) : Except Error ExtensionSet := do
  let block ← (Pem.read (Pem.bytesOf text)).mapError .pem
  ofCertificate block.contents

/-- The extensions of the request in the first block of a text, whatever the block's label. -/
def ofRequestText (text : String) : Except Error ExtensionSet := do
  let block ← (Pem.read (Pem.bytesOf text)).mapError .pem
  ofRequest block.contents

end ExtensionSet

end CertExtensions
