import CertExtensions.ExtensionSet.Der
import CertExtensions.Issuer

/-!
# Input files

A file is a labelled text block or else an encoding as such. The label tells what is encoded where more than one thing
can be meant; without a label each of them is tried.
-/

namespace CertExtensions

/-- Why nothing can be taken from a file. -/
inductive InputError where
  | missingFile
  | pem (fault : Pem.Fault)
  /-- a block that holds nothing with a public key, and the file that it is in -/
  | unsupportedLabel (label file : String)
  | contents (error : Error)
  deriving DecidableEq, Repr

def InputError.message : InputError → String
  | .missingFile => missingFileMessage
  | .pem fault => fault.message
  | .unsupportedLabel label file =>
    "unsupported PEM label " ++ Text.quoted label ++ " in " ++ file
  | .contents error => error.message

/-- What a file holds: an encoding, with the label of its block if it is in one. -/
structure Input where
  label? : Option String
  contents : List UInt8
  deriving DecidableEq, Repr

namespace Input

/-! ### Reading files -/

/-- Whether the byte is a blank in front of a block. -/
def isLeadingBlank (b : UInt8) : Bool :=
  b == 0x20 || b == 0x09 || b == 0x0A || b == 0x0C || b == 0x0D

/-- Whether a block begins behind the blanks at the start. -/
def isBlock (bytes : List UInt8) : Bool :=
  (Pem.bytesOf "-----BEGIN").isPrefixOf (bytes.dropWhile isLeadingBlank)

/-- What the bytes of a file hold. -/
def ofBytes (bytes : List UInt8) : Except InputError Input :=
  if isBlock bytes then
    match Pem.read bytes with
    | .ok block => .ok ⟨some block.label, block.contents⟩
    | .error fault => .error (.pem fault)
  else .ok ⟨none, bytes⟩

/-- What a file holds, given by its bytes if the file is there. -/
def ofFile : Option (List UInt8) → Except InputError Input
  | some bytes => ofBytes bytes
  | none => .error .missingFile

/-! ### What is taken from a file -/

def requestLabels : List String := ["CERTIFICATE REQUEST", "NEW CERTIFICATE REQUEST"]

/-- The first result that is no error, or the error of the last one. -/
def firstOf {α : Type} (first second : Except Error α) : Except Error α :=
  match first with
  | .ok value => .ok value
  | .error _ => second

/-- The extensions of a request, or of a certificate under any other label. -/
def extensions (input : Input) : Except Error ExtensionSet :=
  match input.label? with
  | some label =>
    if label ∈ requestLabels then ExtensionSet.ofRequest input.contents
    else ExtensionSet.ofCertificate input.contents
  | none =>
    firstOf (ExtensionSet.ofCertificate input.contents) (ExtensionSet.ofRequest input.contents)

/-- The key of an issuer with the certificate. -/
def certificateKey (bytes : List UInt8) : Except Error PublicKey :=
  (Issuer.ofCertificate bytes).map (·.key)

/-- The key in an encoding that may be a key as such, a certificate or a request. -/
def anyKey (bytes : List UInt8) : Except Error PublicKey :=
  firstOf (firstOf (PublicKey.ofDer bytes) (certificateKey bytes)) (PublicKey.ofRequest bytes)

/-- The public key as such, in a certificate or in a request; `file` is the name of the file. -/
def publicKey (file : String) (input : Input) : Except InputError PublicKey :=
  match input.label? with
  | some label =>
    if label = "PUBLIC KEY" then (PublicKey.ofDer input.contents).mapError .contents
    else if label = "CERTIFICATE" then (certificateKey input.contents).mapError .contents
    else if label ∈ requestLabels then (PublicKey.ofRequest input.contents).mapError .contents
    else .error (.unsupportedLabel label file)
  | none => (anyKey input.contents).mapError .contents

/-- The issuer that has the certificate as its own, whatever the label. -/
def issuer (input : Input) : Except Error Issuer :=
  Issuer.ofCertificate input.contents

end Input

/-! ### Files -/

def ExtensionSet.ofFile (bytes? : Option (List UInt8)) : Except InputError ExtensionSet := do
  let input ← Input.ofFile bytes?
  input.extensions.mapError .contents

/-- The public key in the file with the given name. -/
def PublicKey.ofFile (file : String) (bytes? : Option (List UInt8)) : Except InputError PublicKey := do
  let input ← Input.ofFile bytes?
  input.publicKey file

def Issuer.ofFile (bytes? : Option (List UInt8)) : Except InputError Issuer := do
  let input ← Input.ofFile bytes?
  input.issuer.mapError .contents

end CertExtensions
