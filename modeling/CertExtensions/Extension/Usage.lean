import CertExtensions.Oid.Names
import CertExtensions.Outline

/-!
# Usages

Extensions that say what a key or a certificate is for: lists of named bits, of which the set ones are shown, and
lists of purposes.
-/

namespace CertExtensions

open Asn1 Outline

/-! ### Named bits -/

/-- The names of the set bits, a line each. -/
def namedBitsOutline (names : List String) (depth : Nat) (bits : Bits) : Outline :=
  lines depth (bits.named names)

namespace KeyUsage

def names : List String := [
  "digitalSignature", "nonRepudiation", "keyEncipherment", "dataEncipherment", "keyAgreement",
  "keyCertSign", "cRLSign", "encipherOnly", "decipherOnly"]

def outline : Bits → Outline := namedBitsOutline names 0

end KeyUsage

namespace NetscapeCertificateType

def names : List String := [
  "sslClient", "sslServer", "smime", "objectSigning", "reserved", "sslCA", "smimeCA", "objectSigningCA"]

def outline : Bits → Outline := namedBitsOutline names 0

end NetscapeCertificateType

/-! ### Purposes -/

namespace ExtendedKeyUsage

def taggedType : TaggedType (List ObjectId) := .sequenceOf objectId.schema

def outline (purposes : List ObjectId) : Outline :=
  lines 0 (purposes.map (·.nameIn ObjectId.keyPurposes))

end ExtendedKeyUsage

end CertExtensions
