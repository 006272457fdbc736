import CertExtensions.Extension.Profession
import CertExtensions.Extension.Vendor
import CertExtensions.Proofs.Asn1.Remaining
import CertExtensions.Proofs.Extension.QualifiedStatements

/-!
# Sequences with an open end

Six kinds of sequences end with whatever elements there are: qualifiers of policies and statements about qualified
certificates whose identifiers are not known, mail capabilities, the hash algorithms of biometric data, references to
certificates, and validity models. Each is an `OpenSequence`, so that none of the bytes behind its front gets lost
(`remaining_exact`).
-/

namespace CertExtensions

open Asn1

/-! ### The sequences -/

def PolicyQualifier.openSequence : OpenSequence ObjectId PolicyQualifier where
  front := objectId.required
  known? id :=
    if id = ObjectId.cpsPointer then some (PolicyQualifier.pointer <$> ia5String.required)
    else if id = ObjectId.userNotice then some (PolicyQualifier.notice <$> UserNotice.taggedType.required)
    else none
  make := .other

def QualifiedStatement.openSequence : OpenSequence ObjectId QualifiedStatement where
  front := objectId.required
  known? id := if id ∈ knownIds then some (body id) else none
  make := .other

def MailCapability.openSequence : OpenSequence ObjectId MailCapability where
  front := objectId.required
  known? _ := none
  make := .mk

def BiometricData.openAlgorithm : OpenSequence ObjectId ObjectId where
  front := objectId.required
  known? _ := none
  make algorithm _ := algorithm

def SigningFor.openCertificate : OpenSequence (List GeneralName × List UInt8) SigningFor where
  front := do return (← GeneralName.listType.required, ← integerOctets.required)
  known? _ := none
  make reference _ := .certificate reference.1 reference.2

def ValidityModel.openSequence : OpenSequence ObjectId ObjectId where
  front := objectId.required
  known? _ := none
  make model _ := model

private theorem PolicyQualifier.taggedType_eq : taggedType = openSequence.taggedType := by
  refine congrArg TaggedType.sequence (bind_congr fun id => ?_)
  by_cases hpointer : id = ObjectId.cpsPointer
  · simp only [openSequence, hpointer, ↓reduceIte]
    rfl
  · by_cases hnotice : id = ObjectId.userNotice
    · simp only [openSequence, hnotice, ↓reduceIte]
      rfl
    · simp only [openSequence, hpointer, hnotice, ↓reduceIte]

private theorem QualifiedStatement.taggedType_eq : taggedType = openSequence.taggedType := by
  refine congrArg TaggedType.sequence (bind_congr fun id => ?_)
  by_cases hknown : id ∈ knownIds
  · simp only [openSequence, hknown, ↓reduceIte]
  · simp only [openSequence, hknown, ↓reduceIte, body_of_unknown hknown]

private theorem SigningFor.certificateType_eq : certificateType = openCertificate.taggedType := by
  simp only [certificateType, OpenSequence.taggedType, openCertificate, bind_assoc, pure_bind]

/-! ### All that is left -/

/-- Wherever one of the sequences is read, the loop at its end has been given the bytes behind the front, and has given
all of them back as they are. Elements that do not mark the end of contents are given back one behind the other, unless
a tag number does not fit a word. -/
theorem remaining_exact :
    PolicyQualifier.openSequence.KeepsRest PolicyQualifier.taggedType ∧
      QualifiedStatement.openSequence.KeepsRest QualifiedStatement.taggedType ∧
      MailCapability.openSequence.KeepsRest MailCapability.taggedType ∧
      BiometricData.openAlgorithm.KeepsRest BiometricData.algorithmType ∧
      SigningFor.openCertificate.KeepsRest SigningFor.certificateType ∧
      ValidityModel.openSequence.KeepsRest ValidityModel.taggedType ∧
      ∀ tags elements, Schema.ElementsOf tags elements →
        remaining elements.flatten =
          if ∀ tag ∈ tags, tag.number < 2 ^ 64 then .ok (elements.flatten, []) else .error .integerOverflow := by
  have hid := objectId.schema.findsOnly_top.required
  have hreference : SigningFor.openCertificate.front.TakesOnly _ :=
    GeneralName.listType.schema.findsOnly_top.required.bind fun _ =>
      integerOctets.schema.findsOnly_top.required.bind_pure _
  refine ⟨OpenSequence.keepsRest PolicyQualifier.taggedType_eq hid,
    OpenSequence.keepsRest QualifiedStatement.taggedType_eq hid, OpenSequence.keepsRest rfl hid,
    OpenSequence.keepsRest rfl hid, OpenSequence.keepsRest SigningFor.certificateType_eq hreference,
    OpenSequence.keepsRest rfl hid, ?_⟩
  exact fun tags elements h => remaining_flatten h

/-- Two elements behind the identifier of a mail capability, one of them empty. -/
theorem remaining_exact_mailCapability :
    let bytes : List UInt8 := [48, 9, 6, 2, 42, 3, 5, 0, 2, 1, 7]
    Schema.ElementsOf [.null, .integer] [[5, 0], [2, 1, 7]] ∧ remaining [5, 0, 2, 1, 7] = .ok ([5, 0, 2, 1, 7], []) ∧
      MailCapability.taggedType.schema.read bytes = .found ⟨⟨[1, 2, 3]⟩, [5, 0, 2, 1, 7]⟩ [] ∧
      ∃ before, IsElement .sequence true (before ++ [5, 0, 2, 1, 7]) bytes ∧
        objectId.required (before ++ [5, 0, 2, 1, 7]) = .ok (⟨[1, 2, 3]⟩, [5, 0, 2, 1, 7]) := by
  intro bytes
  obtain ⟨-, -, hcapability, -, -, -, hremaining⟩ := remaining_exact
  have helements : Schema.ElementsOf [.null, .integer] [[5, 0], [2, 1, 7]] :=
    .cons ⟨by decide, ⟨false, [], [0], .short (by decide), rfl⟩, by decide⟩
      (.cons ⟨by decide, ⟨false, [7], [1], .short (by decide), rfl⟩, by decide⟩ .nil)
  have hread : MailCapability.taggedType.schema.read bytes = .found ⟨⟨[1, 2, 3]⟩, [5, 0, 2, 1, 7]⟩ [] := rfl
  obtain ⟨element, before, unread, head, hbytes, helement, hfront, hkept⟩ := hcapability.kept hread
  obtain ⟨-, hvalue⟩ := hkept rfl
  cases hvalue
  rw [List.append_nil] at hbytes
  exact ⟨helements, hremaining _ _ helements, hread, before, hbytes ▸ helement, hfront⟩

/-- An element with a tag number that does not fit a word is not given back, and a mail capability that has it is
refused. -/
theorem remaining_limits :
    let element : List UInt8 := [159, 130, 128, 128, 128, 128, 128, 128, 128, 128, 0, 0]
    let value : List UInt8 := [4, 20, 48, 18, 48, 16, 6, 2, 42, 3] ++ element
    element ∈ elementsOf (.context (2 ^ 64)) ∧ Tag.context (2 ^ 64) ≠ .universal 0 ∧
      remaining element = .error .integerOverflow ∧
      value ∈ leaf .octetString (node .sequence (node .sequence
        (leaf .objectIdentifier (objectIdContents ⟨[1, 2, 3]⟩) * elementsOf (.context (2 ^ 64))))) ∧
      (⟨"1.2.840.113549.1.9.15", false, value⟩ : Extension).text {} = .error .integerOverflow := by
  intro element value
  have hid : ObjectId.decode [42, 3] = .ok ⟨[1, 2, 3]⟩ := rfl
  have hcapability := make_mem_node (Language.append_mem_mul (make_mem_objectId hid (by decide))
    unreadable_mem_elementsOf) (by decide) .sequence
  exact ⟨unreadable_mem_elementsOf, by decide, by rfl,
    make_mem_leaf (make_mem_node hcapability (by decide) .sequence) (by decide) .octetString, rfl⟩

end CertExtensions
