import CertExtensions.ExtensionSet.Operation
import CertExtensions.Proofs.ExtensionSet.FiniteMap

/-!
# Runs of operations on sets and on finite maps

Reading a source adds the extensions that the source lists to the empty set, one after the other (`read_eq`). So every
operation is an operation on finite maps: it succeeds or fails alike on both, with the same error (`perform_maps`), and
after any run the sets tell exactly what the finite maps hold (`run_shows`).
-/

namespace CertExtensions

open Asn1

/-! ### Sources -/

namespace ExtensionSource

/-- The extensions in a stored set, those of the critical block first. -/
def storedExtensions (bytes : List UInt8) : Except Error (List Extension) := do
  let ((critical, nonCritical), _) ← ExtensionSet.takeStored.run bytes
  return critical.map (·.extension true) ++ nonCritical.map (·.extension false)

/-- The extensions of a certificate or a request, if it can be read and all their identifiers can. -/
def certifiedExtensions (error : Error) (extensions? : Option (List CertifiedExtension)) :
    Except Error (List Extension) :=
  match extensions?.bind (·.mapM CertifiedExtension.wrapped?) with
  | some extensions => .ok extensions
  | none => .error error

def certificateExtensions (bytes : List UInt8) : Except Error (List Extension) :=
  certifiedExtensions .certificate ((Certificate.read? bytes).map (·.extensions))

def requestExtensions (bytes : List UInt8) : Except Error (List Extension) :=
  certifiedExtensions .request ((CertificateRequest.read? bytes).map (·.extensions))

/-- The extensions that a source lists, in its order; an identifier may come several times. -/
def extensions : ExtensionSource → Except Error (List Extension)
  | stored bytes | storedFile (some bytes) => storedExtensions bytes
  | storedFile none => .error .missingFile
  | sequence bytes => ((TaggedType.sequenceOf Extension.taggedType.schema).whole bytes).mapError .decode
  | certificate bytes => certificateExtensions bytes
  | certificateText text => do
    let block ← (Pem.read (Pem.bytesOf text)).mapError .pem
    certificateExtensions block.contents
  | request bytes => requestExtensions bytes
  | requestText text => do
    let block ← (Pem.read (Pem.bytesOf text)).mapError .pem
    requestExtensions block.contents

private theorem load_eq (bytes : List UInt8) :
    ExtensionSet.load bytes = (storedExtensions bytes).map ExtensionSet.empty.insertAll := by
  unfold ExtensionSet.load storedExtensions
  cases ExtensionSet.takeStored.run bytes with
  | error error => rfl
  | ok result => exact congrArg Except.ok (ExtensionSet.insertAll_append _ _ _).symm

private theorem ofCertificate_eq (bytes : List UInt8) :
    ExtensionSet.ofCertificate bytes = (certificateExtensions bytes).map ExtensionSet.empty.insertAll := by
  unfold ExtensionSet.ofCertificate certificateExtensions certifiedExtensions
  cases Certificate.read? bytes with
  | none => rfl
  | some certificate =>
    simp only [Option.bind_some, Option.map_some, ExtensionSet.ofCertified?]
    cases certificate.extensions.mapM CertifiedExtension.wrapped? <;> rfl

private theorem ofRequest_eq (bytes : List UInt8) :
    ExtensionSet.ofRequest bytes = (requestExtensions bytes).map ExtensionSet.empty.insertAll := by
  unfold ExtensionSet.ofRequest requestExtensions certifiedExtensions
  cases CertificateRequest.read? bytes with
  | none => rfl
  | some request =>
    simp only [Option.bind_some, Option.map_some, ExtensionSet.ofCertified?]
    cases request.extensions.mapM CertifiedExtension.wrapped? <;> rfl

/-- The set in a source is what adding the extensions that the source lists gives. -/
theorem read_eq (source : ExtensionSource) :
    source.read = source.extensions.map ExtensionSet.empty.insertAll := by
  cases source with
  | stored bytes => exact load_eq bytes
  | storedFile bytes? =>
    cases bytes? with
    | none => rfl
    | some bytes => exact load_eq bytes
  | sequence bytes =>
    simp only [read, extensions, ExtensionSet.fromDer]
    cases (TaggedType.sequenceOf Extension.taggedType.schema).whole bytes <;> rfl
  | certificate bytes => exact ofCertificate_eq bytes
  | certificateText text =>
    simp only [read, extensions, ExtensionSet.ofCertificateText]
    cases (Pem.read (Pem.bytesOf text)).mapError Error.pem with
    | error error => rfl
    | ok block => exact ofCertificate_eq block.contents
  | request bytes => exact ofRequest_eq bytes
  | requestText text =>
    simp only [read, extensions, ExtensionSet.ofRequestText]
    cases (Pem.read (Pem.bytesOf text)).mapError Error.pem with
    | error error => rfl
    | ok block => exact ofRequest_eq block.contents

end ExtensionSource

/-! ### Runs on maps -/

/-- The finite maps of the set that is worked on and of the copy that was kept last. -/
structure MapSession where
  current : ExtensionMap
  kept : ExtensionMap

namespace MapSession

/-- Two maps without extensions. -/
def start : MapSession := ⟨∅, ∅⟩

/-- What an operation makes of the maps. -/
def perform (maps : MapSession) : Operation → Except Error MapSession
  | .clear => .ok { maps with current := ∅ }
  | .insert extension => .ok { maps with current := maps.current.add extension }
  | .erase identifier => .ok { maps with current := maps.current.erase identifier }
  | .toggle identifier => .ok { maps with current := maps.current.toggle identifier }
  | .update subject issuer => (maps.current.update subject issuer).map ({ maps with current := · })
  | .read source => source.extensions.map fun extensions => { maps with current := ExtensionMap.addAll ∅ extensions }
  | .keep => .ok { maps with kept := maps.current }
  | .restore => .ok { maps with current := maps.kept }

/-- The maps after an operation, which are those before it where the operation fails. -/
def after (maps : MapSession) (operation : Operation) : MapSession :=
  match maps.perform operation with
  | .ok changed => changed
  | .error _ => maps

/-- The maps after several operations. -/
def run (maps : MapSession) (operations : List Operation) : MapSession :=
  operations.foldl after maps

end MapSession

/-! ### Runs on sets -/

namespace Session

/-- The finite maps of the sets. -/
def maps (session : Session) : MapSession :=
  ⟨session.current.toMap, session.kept.toMap⟩

/-- An operation does to the maps what it does to the sets, and it fails on both or on neither. -/
theorem perform_maps (session : Session) (operation : Operation) :
    (session.perform operation).map maps = session.maps.perform operation := by
  cases operation with
  | clear => rfl
  | insert extension =>
    simp only [perform, MapSession.perform, maps, Except.map, ExtensionSet.toMap_insert]
  | erase identifier =>
    simp only [perform, MapSession.perform, maps, Except.map, ExtensionSet.toMap_erase]
  | toggle identifier =>
    simp only [perform, MapSession.perform, maps, Except.map, ExtensionSet.toMap_toggle]
  | update subject issuer =>
    simp only [perform, MapSession.perform, maps, ← ExtensionSet.toMap_update]
    cases session.current.update subject issuer <;> rfl
  | read source =>
    simp only [perform, MapSession.perform, source.read_eq]
    cases source.extensions with
    | error error => rfl
    | ok extensions =>
      simp only [maps, Except.map, ExtensionSet.toMap_insertAll, ExtensionSet.toMap_empty]
  | keep => rfl
  | restore => rfl

private theorem after_maps (session : Session) (operation : Operation) :
    (session.after operation).maps = session.maps.after operation := by
  unfold after MapSession.after
  rw [← perform_maps]
  cases session.perform operation <;> rfl

theorem run_maps (session : Session) (operations : List Operation) :
    (session.run operations).maps = session.maps.run operations := by
  induction operations generalizing session with
  | nil => rfl
  | cons operation operations ih =>
    have h := ih (session.after operation)
    rw [after_maps] at h
    exact h

/-- After any run the sets answer as the finite maps do that the same run leaves, the next operation has the same
outcome on both, turning criticality around twice changes nothing, and sets are equal where their maps are. -/
theorem run_shows (operations : List Operation) :
    let session := start.run operations
    let maps := MapSession.start.run operations
    session.current.Shows maps.current ∧ session.kept.Shows maps.kept ∧
      (∀ operation, (session.perform operation).map Session.maps = maps.perform operation) ∧
      (∀ identifier, (session.current.toggle identifier).toggle identifier = session.current) ∧
      (session.current = session.kept ↔ maps.current = maps.kept) ∧
      ∀ others, session.current = (start.run others).current ↔ maps.current = (MapSession.start.run others).current := by
  intro session maps
  have hmaps : session.maps = maps := run_maps start operations
  have hcurrent : session.current.toMap = maps.current := congrArg MapSession.current hmaps
  have hkept : session.kept.toMap = maps.kept := congrArg MapSession.kept hmaps
  refine ⟨?_, ?_, ?_, ?_, ?_, ?_⟩
  · rw [← hcurrent]
    exact session.current.shows_toMap
  · rw [← hkept]
    exact session.kept.shows_toMap
  · intro operation
    rw [← hmaps]
    exact perform_maps session operation
  · exact session.current.toggle_toggle
  · rw [← hcurrent, ← hkept]
    exact ExtensionSet.toMap_inj.symm
  · intro others
    have hothers : (start.run others).current.toMap = (MapSession.start.run others).current :=
      congrArg MapSession.current (run_maps start others)
    rw [← hcurrent, ← hothers]
    exact ExtensionSet.toMap_inj.symm

end Session

end CertExtensions
