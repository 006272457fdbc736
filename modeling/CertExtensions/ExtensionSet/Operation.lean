import CertExtensions.ExtensionSet.Binary
import CertExtensions.ExtensionSet.Der
import CertExtensions.ExtensionSet.Update

/-!
# Runs of operations

What can be done to a set, and what several operations leave behind. A copy of the set can be kept and taken up again
later; an operation that fails changes nothing.
-/

namespace CertExtensions

inductive ExtensionSource where
  | stored (bytes : List UInt8)
  /-- a file with a stored set, given by its content if the file is there -/
  | storedFile (bytes? : Option (List UInt8))
  | sequence (bytes : List UInt8)
  | certificate (bytes : List UInt8)
  | certificateText (text : String)
  | request (bytes : List UInt8)
  | requestText (text : String)
  deriving DecidableEq, Repr

def ExtensionSource.read : ExtensionSource → Except Error ExtensionSet
  | stored bytes => ExtensionSet.load bytes
  | storedFile bytes? => ExtensionSet.loadFile bytes?
  | sequence bytes => ExtensionSet.fromDer bytes
  | certificate bytes => ExtensionSet.ofCertificate bytes
  | certificateText text => ExtensionSet.ofCertificateText text
  | request bytes => ExtensionSet.ofRequest bytes
  | requestText text => ExtensionSet.ofRequestText text

inductive Operation where
  | clear
  | insert (extension : Extension)
  | erase (identifier : String)
  | toggle (identifier : String)
  | update (subject : PublicKey) (issuer : Issuer)
  | read (source : ExtensionSource)
  | keep
  | restore

/-- The set that is worked on, and the copy that was kept last. -/
structure Session where
  current : ExtensionSet
  kept : ExtensionSet
  deriving DecidableEq

namespace Session

def start : Session := ⟨∅, ∅⟩

/-- What an operation makes of the session. -/
def perform (session : Session) : Operation → Except Error Session
  | .clear => .ok { session with current := ∅ }
  | .insert extension => .ok { session with current := session.current.insert extension }
  | .erase identifier => .ok { session with current := session.current.erase identifier }
  | .toggle identifier => .ok { session with current := session.current.toggle identifier }
  | .update subject issuer => (session.current.update subject issuer).map ({ session with current := · })
  | .read source => source.read.map ({ session with current := · })
  | .keep => .ok { session with kept := session.current }
  | .restore => .ok { session with current := session.kept }

/-- The session after an operation, which is the one before it where the operation fails. -/
def after (session : Session) (operation : Operation) : Session :=
  match session.perform operation with
  | .ok changed => changed
  | .error _ => session

def run (session : Session) (operations : List Operation) : Session :=
  operations.foldl after session

end Session

end CertExtensions
