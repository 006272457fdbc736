import CertExtensions.Certificate.Basic
import CertExtensions.Error
import CertExtensions.Hash.Sha1
import CertExtensions.Name

/-!
# Keys and issuers

Public keys with the identifiers that are derived from them, and what an issuer contributes to the extensions of the
certificates that it issues: its name, the serial number of its own certificate and its key.
-/

namespace CertExtensions

open Asn1

/-! ### Keys -/

structure PublicKey where
  bits : List UInt8
  deriving DecidableEq, Repr

namespace PublicKey

/-- The identifier of 160 bits: the hash of the key. -/
def longIdentifier (key : PublicKey) : List UInt8 :=
  Hash.sha1 key.bits

/-- The identifier of 64 bits: 0100, then the last sixty bits of the hash of the key. -/
def shortIdentifier (key : PublicKey) : List UInt8 :=
  match key.longIdentifier.drop 12 with
  | [] => []
  | b :: rest => UInt8.ofNat (0x40 + b.toNat % 16) :: rest

/-- The key in the encoding of a key with its algorithm. -/
def ofDer (bytes : List UInt8) : Except Error PublicKey :=
  match publicKey? bytes with
  | some bits => .ok ⟨bits⟩
  | none => .error .publicKey

/-- The key that a request asks to certify. -/
def ofRequest (bytes : List UInt8) : Except Error PublicKey :=
  match CertificateRequest.read? bytes with
  | some request => .ok ⟨request.publicKey⟩
  | none => .error .request

end PublicKey

/-! ### Serial numbers -/

/-- A serial number, as the content of an integer. -/
structure SerialNumber where
  octets : List UInt8
  deriving DecidableEq, Repr

namespace SerialNumber

/-- The serial number in the fewest bytes. -/
def ofNat (n : Nat) : SerialNumber :=
  ⟨positiveContent (BigEndian.shortest n)⟩

def text (serial : SerialNumber) : String :=
  Hex.numeral serial.octets

end SerialNumber

/-! ### Names -/

/-- An encoded distinguished name; the encoding is kept, so that it can be written back unchanged. -/
structure IssuerName where
  encoding : List UInt8
  name : Name
  reads : Name.taggedType.whole encoding = .ok name

namespace IssuerName

/-- The name in an encoding that is one distinguished name. -/
def ofDer? (encoding : List UInt8) : Option IssuerName :=
  match h : Name.taggedType.whole encoding with
  | .ok name => some ⟨encoding, name, h⟩
  | .error _ => none

/-- The name in an encoding; anything else is an error. -/
def ofDer (encoding : List UInt8) : Except Error IssuerName :=
  match ofDer? encoding with
  | some issuer => .ok issuer
  | none => .error .name

def text (issuer : IssuerName) : String :=
  issuer.name.text

/-- The subject of a certificate as the name of an issuer; a relative name without attributes is refused. -/
def ofSubject? (encoding : List UInt8) : Option IssuerName :=
  match ofDer? encoding with
  | some issuer => if issuer.name.relativeNames.any (·.isEmpty) then none else some issuer
  | none => none

end IssuerName

/-! ### Issuers -/

/-- What an issuer contributes to the certificates that it issues. -/
structure Issuer where
  name : IssuerName
  serial : SerialNumber
  key : PublicKey

namespace Issuer

/-- The issuer that has the certificate as its own. -/
def ofCertificate (bytes : List UInt8) : Except Error Issuer :=
  match Certificate.read? bytes with
  | none => .error .certificate
  | some certificate =>
    match IssuerName.ofSubject? certificate.subject with
    | none => .error .name
    | some name => .ok ⟨name, ⟨certificate.serial⟩, ⟨certificate.publicKey⟩⟩

/-- The issuer that has the certificate in the first block of a text as its own, whatever the block's label. -/
def ofCertificateText (text : String) : Except Error Issuer := do
  let block ← (Pem.read (Pem.bytesOf text)).mapError .pem
  ofCertificate block.contents

end Issuer

end CertExtensions
