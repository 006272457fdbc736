import CertExtensions.Asn1.Tag
import CertExtensions.Pem
import CertExtensions.Text.Quoted

/-!
# Errors

Why an operation fails, and the message that says so.
-/

namespace CertExtensions

/-- Why the bytes of a stored set are refused. -/
inductive LoadFault where
  /-- the first eight bytes, as an unsigned number, are not those of a set -/
  | magic (number : Nat)
  | version (number : Int)
  | truncated
  | negativeLength (number : Int)
  deriving DecidableEq, Repr

inductive Error where
  /-- the value of an extension does not have the structure of its type -/
  | decode (fault : Asn1.Fault)
  /-- a text is not a dotted object identifier, or not Unicode -/
  | identifier (text : String)
  /-- the arcs of an identifier cannot be encoded: the second one is too large -/
  | arcOverflow
  | load (fault : LoadFault)
  | missingFile
  /-- a number of entries, characters or bytes that the stored form has no room for -/
  | oversize (n : Nat)
  | name
  | certificate
  | request
  | publicKey
  | pem (fault : Pem.Fault)
  deriving DecidableEq, Repr

/-- A number in upper case hex digits. -/
def upperHex (n : Nat) : String :=
  String.ofList ((Nat.toDigits 16 n).map Char.toUpper)

def LoadFault.message : LoadFault → String
  | .magic number => "bad magic number 0x" ++ upperHex number
  | .version number => "unsupported format version " ++ toString number
  | .truncated => "not enough bytes"
  | .negativeLength number => "negative length field " ++ toString number

/-- What the system says of a file that is not there. -/
def missingFileMessage : String := "No such file or directory (os error 2)"

def Error.message : Error → String
  | .decode fault =>
    "Could not decode extension value: ASN1Error \x7b kind: " ++ fault.name ++ " \x7d"
  | .identifier text => "Invalid object identifier: " ++ Text.quoted text
  | .arcOverflow => "Object identifier too large to encode"
  | .load fault => "Could not load extension set: " ++ fault.message
  | .missingFile => "I/O error: " ++ missingFileMessage
  | .oversize n => "I/O error: length " ++ toString n ++ " does not fit the format"
  | .name => "Invalid distinguished name encoding"
  | .certificate => "Could not parse certificate"
  | .request => "Could not parse certificate signing request"
  | .publicKey => "Could not parse subject public key info"
  | .pem fault => "PEM error: " ++ fault.message

end CertExtensions
