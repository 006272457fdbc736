import CertExtensions.Oid.Basic

/-!
# Names of object identifiers

Tables from arcs to the names under which extension texts show them, and the single identifiers that decide how
a structure is read.
-/

namespace CertExtensions.ObjectId

/-- The name of an identifier in a table, its dotted text if the table has none. -/
def nameIn (table : List (List Nat × String)) (id : ObjectId) : String :=
  (table.lookup id.arcs).getD id.dotted

def keyPurposes : List (List Nat × String) := [
  ([1, 3, 6, 1, 5, 5, 7, 3, 1], "TLS Web Server Authentication"),
  ([1, 3, 6, 1, 5, 5, 7, 3, 2], "TLS Web Client Authentication"),
  ([1, 3, 6, 1, 5, 5, 7, 3, 3], "Code Signing"),
  ([1, 3, 6, 1, 5, 5, 7, 3, 4], "Email Protection"),
  ([1, 3, 6, 1, 5, 5, 7, 3, 5], "IPSec End System"),
  ([1, 3, 6, 1, 5, 5, 7, 3, 6], "IPSec Tunnel"),
  ([1, 3, 6, 1, 5, 5, 7, 3, 7], "IPSec User"),
  ([1, 3, 6, 1, 5, 5, 7, 3, 8], "Time Stamping"),
  ([1, 3, 6, 1, 5, 5, 7, 3, 9], "OCSP Signing"),
  ([1, 3, 6, 1, 5, 5, 7, 3, 17], "IPSec IKE"),
  ([1, 3, 6, 1, 5, 5, 7, 3, 21], "SSH Client"),
  ([1, 3, 6, 1, 5, 5, 7, 3, 22], "SSH Server"),
  ([2, 5, 29, 37, 0], "Any Extended Key Usage"),
  ([1, 3, 6, 1, 5, 2, 3, 4], "PKINIT Client Authentication"),
  ([1, 3, 6, 1, 5, 2, 3, 5], "Kerberos KDC"),
  ([1, 3, 6, 1, 4, 1, 311, 2, 1, 21], "Individual Code Signing"),
  ([1, 3, 6, 1, 4, 1, 311, 2, 1, 22], "Commercial Code Signing"),
  ([1, 3, 6, 1, 4, 1, 311, 10, 3, 1], "Microsoft Trust List Signing"),
  ([1, 3, 6, 1, 4, 1, 311, 10, 3, 3], "Microsoft Server Gated Crypto"),
  ([1, 3, 6, 1, 4, 1, 311, 10, 3, 4], "Encrypted File System"),
  ([1, 3, 6, 1, 4, 1, 311, 10, 3, 12], "Document Signing"),
  ([1, 3, 6, 1, 4, 1, 311, 20, 2, 2], "Smartcard Logon"),
  ([2, 16, 840, 1, 113730, 4, 1], "Netscape Server Gated Crypto"),
  ([1, 2, 840, 113583, 1, 1, 5], "Adobe PDF Signing")]

def accessMethods : List (List Nat × String) := [
  ([1, 3, 6, 1, 5, 5, 7, 48, 1], "OCSP"),
  ([1, 3, 6, 1, 5, 5, 7, 48, 2], "CA Issuers"),
  ([1, 3, 6, 1, 5, 5, 7, 48, 3], "Time Stamping"),
  ([1, 3, 6, 1, 5, 5, 7, 48, 5], "CA Repository")]

/-- What to do with a certificate on hold. -/
def holdInstructions : List (List Nat × String) := [
  ([1, 2, 840, 10040, 2, 1], "None"),
  ([1, 2, 840, 10040, 2, 2], "Call Issuer"),
  ([1, 2, 840, 10040, 2, 3], "Reject")]

/-- Kinds of qualified certificates. -/
def qualifiedTypes : List (List Nat × String) := [
  ([0, 4, 0, 1862, 1, 6, 1], "Electronic Signature"),
  ([0, 4, 0, 1862, 1, 6, 2], "Electronic Seal"),
  ([0, 4, 0, 1862, 1, 6, 3], "Website Authentication")]

/-- Models of the validity of certificate chains. -/
def validityModels : List (List Nat × String) := [
  ([1, 3, 6, 1, 4, 1, 8301, 3, 5, 1], "Chain Model"),
  ([1, 3, 6, 1, 4, 1, 8301, 3, 5, 2], "Shell Model")]

/-! ### Single identifiers -/

/-- A user principal name in an other name. -/
def userPrincipalName : ObjectId := ⟨[1, 3, 6, 1, 4, 1, 311, 20, 2, 3]⟩

/-- A pointer to a certification practice statement. -/
def cpsPointer : ObjectId := ⟨[1, 3, 6, 1, 5, 5, 7, 2, 1]⟩

/-- A notice to the user of a certificate. -/
def userNotice : ObjectId := ⟨[1, 3, 6, 1, 5, 5, 7, 2, 2]⟩

end CertExtensions.ObjectId
