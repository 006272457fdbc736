import CertExtensions.Certificate.Part
import CertExtensions.Oid.Basic

/-!
# Certificates and requests

What is taken from a certificate, and what from a request for one. Signatures are not checked, values of extensions
are not looked at, and bytes behind the outer element do not matter.
-/

namespace CertExtensions

open Asn1 Parts

/-- An extension as a certificate holds it: the content of its identifier and of its value. -/
structure CertifiedExtension where
  identifier : List UInt8
  critical : Bool
  octets : List UInt8
  deriving DecidableEq, Repr

/-- What is taken from a certificate; the subject stays encoded. -/
structure Certificate where
  serial : List UInt8
  subject : List UInt8
  publicKey : List UInt8
  extensions : List CertifiedExtension
  deriving DecidableEq, Repr

/-- What is taken from a request. -/
structure CertificateRequest where
  publicKey : List UInt8
  extensions : List CertifiedExtension
  deriving DecidableEq, Repr

/-! ### Extensions -/

namespace CertifiedExtension

/-- A truth value that may be missing; every byte but zero is true. -/
def critical? : Parts Bool := do
  match ← Parts.optional .boolean with
  | none => return false
  | some next =>
    match next.content with
    | [b] => return b != 0
    | _ => failure

def part : Parts CertifiedExtension :=
  inSequence do
    let identifier ← expect .objectIdentifier false
    let critical ← critical?
    let value ← expect .octetString false
    return ⟨identifier.content, critical, value.content⟩

/-- A sequence that holds extensions and nothing else. -/
def list : Parts (List CertifiedExtension) := do
  let next ← expect .sequence true
  all part next.content

/-- The later arcs of an identifier, nine base 128 digits each at most; `acc` and `count` are the number that has
begun and its digits. Digits at the end that no last digit follows form an arc all the same. -/
def laterArcs? (acc count : Nat) : List UInt8 → Option (List Nat)
  | [] => some (if count = 0 then [] else [acc % wordLimit])
  | b :: rest =>
    let acc := acc * 128 + b.toNat % 128
    if b < 128 then
      if 9 ≤ count then none else (laterArcs? 0 0 rest).map (acc :: ·)
    else laterArcs? acc (count + 1) rest

/-- The object identifier in a certificate. Its first two arcs are quotient and remainder of the first byte by 40;
no byte gives no arc, and a zero byte alone gives one. -/
def objectId? (extension : CertifiedExtension) : Option ObjectId :=
  match extension.identifier with
  | [] => some ⟨[]⟩
  | b :: rest =>
    if b = 0 ∧ rest = [] then some ⟨[0]⟩
    else (laterArcs? 0 0 rest).map fun arcs => ⟨b.toNat / 40 :: b.toNat % 40 :: arcs⟩

end CertifiedExtension

/-! ### Certificates -/

namespace Certificate

/-- A version in a tag of its own that may be missing. -/
def versionPart : Parts Unit := do
  match ← Parts.optional (.context 0) with
  | none => return ()
  | some next =>
    let _ ← number.within next.content
    return ()

/-- A bit string under another tag that may be missing. -/
def uniqueId (tag : Nat) : Parts Unit := do
  match ← Parts.optional (.context tag) with
  | none => return ()
  | some next =>
    match decodeBits next.content with
    | .ok _ => guard !next.constructed
    | .error _ => failure

/-- The extensions, which are the last field: behind a header with tag number 3 there is nothing but one sequence of
extensions. -/
def extensionsPart : Parts (List CertifiedExtension) := do
  if (← get).isEmpty then return []
  let (id, _) ← header
  guard (id.tag.number = 3)
  let extensions ← CertifiedExtension.list
  guard (← get).isEmpty
  return extensions

/-- The certificate without its extensions. -/
def fieldsPart : Parts Certificate := do
  versionPart
  let serial ← element
  guard (serial.tag = .integer)
  algorithm
  let _ ← expect .sequence true
  inSequence do
    Parts.time
    Parts.time
  let subject ← expect .sequence true
  let key ← Parts.publicKey
  uniqueId 1
  uniqueId 2
  return ⟨serial.content, subject.encoding, key, []⟩

def signedPart : Parts Certificate :=
  inSequence do
    let certificate ← fieldsPart
    let extensions ← extensionsPart
    return { certificate with extensions }

/-- The certificate that the bytes start with. -/
def read? (bytes : List UInt8) : Option Certificate :=
  Parts.within
    (inSequence do
      let certificate ← signedPart
      algorithm
      let _ ← bits
      return certificate)
    bytes

end Certificate

/-! ### Requests -/

namespace CertificateRequest

/-- The attribute that holds requested extensions. -/
def extensionRequest : List UInt8 := [0x2A, 0x86, 0x48, 0x86, 0xF7, 0x0D, 0x01, 0x09, 0x0E]

/-- The extensions that an attribute requests: its values are a set, which starts with a sequence of extensions if the
attribute is the one for extensions. -/
def attributePart : Parts (List CertifiedExtension) :=
  inSequence do
    let type ← expect .objectIdentifier false
    let (id, _) ← header
    guard (id.tag = .set)
    if type.content = extensionRequest then CertifiedExtension.list else return []

/-- The attributes, which are the last field and must be there. -/
def attributesPart : Parts (List CertifiedExtension) := do
  let (id, _) ← header
  guard (id.tag = .context 0)
  let lists ← all attributePart (← get)
  return lists.flatten

def signedPart : Parts CertificateRequest :=
  inSequence do
    let _ ← number
    let _ ← expect .sequence true
    let key ← Parts.publicKey
    let extensions ← attributesPart
    return ⟨key, extensions⟩

/-- The request that the bytes start with. -/
def read? (bytes : List UInt8) : Option CertificateRequest :=
  Parts.within
    (inSequence do
      let request ← signedPart
      algorithm
      let _ ← bits
      return request)
    bytes

end CertificateRequest

/-- The key bits of the public key that the bytes start with. -/
def publicKey? (bytes : List UInt8) : Option (List UInt8) :=
  Parts.publicKey.within bytes

end CertExtensions
