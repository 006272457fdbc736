import CertExtensions.Proofs.ExtensionSet.NormalForm

/-!
# Object identifiers in an encoded set

A set tells its extensions apart by the texts of their identifiers, an encoded set by the contents of its object
identifiers. Contents are different exactly where the texts still are without plus signs and zeros in front of an arc
(`content_parsedId_eq_iff`). So no object identifier comes twice in an encoded set exactly where no two texts differ in
nothing else (`nodup_content_iff`).
-/

namespace CertExtensions.ExtensionSet

open Asn1

variable {set : ExtensionSet} {der bytes : List UInt8}

/-- The contents of the object identifiers in the encoded set, in the order of its elements. -/
def encodedContents (set : ExtensionSet) : List (List UInt8) :=
  set.toList.map fun extension => extension.parsedId.content

/-- The texts of the identifiers without plus signs and zeros in front of their arcs. -/
def plainTexts (set : ExtensionSet) : List String :=
  set.toList.map fun extension => ObjectId.plainText extension.identifier

private theorem encoding_eq (h : set.toDer = .ok der) {extension : Extension} (hmem : extension ∈ set.toList) :
    extension.encoding = extension.encode extension.parsedId.content := by
  obtain ⟨id, content, hid, hcontent⟩ := (toDer_eq_ok h).2 extension hmem
  rw [Extension.encoding, Extension.parsedId_eq hid, hcontent, Option.getD_some,
    ObjectId.eq_content_of_encode? hcontent]

/-- Two extensions of an encoded set have the same object identifier if their identifiers have the same plain text. -/
theorem content_parsedId_eq_iff (h : set.toDer = .ok der) {a b : Extension} (ha : a ∈ set.toList)
    (hb : b ∈ set.toList) :
    a.parsedId.content = b.parsedId.content ↔ ObjectId.plainText a.identifier = ObjectId.plainText b.identifier := by
  obtain ⟨id, content, hid, hcontent⟩ := (toDer_eq_ok h).2 a ha
  obtain ⟨otherId, other, hotherId, hother⟩ := (toDer_eq_ok h).2 b hb
  rw [Extension.parsedId_eq hid, Extension.parsedId_eq hotherId, ← ObjectId.eq_iff_plainText_eq hid hotherId]
  exact ObjectId.content_inj (ObjectId.ofDotted?_spec hid).1 (ObjectId.ofDotted?_spec hotherId).1
    (ObjectId.numbers_lt_of_encode? hid hcontent) (ObjectId.numbers_lt_of_encode? hotherId hother)

private theorem nodup_toList (set : ExtensionSet) : set.toList.Nodup :=
  List.Nodup.of_map _ set.nodup_identifiers_toList

theorem nodup_content_iff (h : set.toDer = .ok der) : set.encodedContents.Nodup ↔ set.plainTexts.Nodup := by
  rw [encodedContents, plainTexts, List.nodup_map_iff_inj_on set.nodup_toList,
    List.nodup_map_iff_inj_on set.nodup_toList]
  refine forall₂_congr fun a ha => forall₂_congr fun b hb => ?_
  rw [content_parsedId_eq_iff h ha hb]

private theorem nodup_plainTexts
    (h : ∀ extension ∈ set.toList, ObjectId.plainText extension.identifier = extension.identifier) :
    set.plainTexts.Nodup := by
  rw [plainTexts, List.map_congr_left h]
  exact set.nodup_identifiers_toList

/-- An identifier that has been read is a plain text. -/
private theorem plainText_of_fromDer (h : fromDer bytes = .ok set) {extension : Extension}
    (hmem : extension ∈ set.toList) :
    ObjectId.plainText extension.identifier = extension.identifier := by
  obtain ⟨id, hreadable, hid⟩ := readable_of_fromDer h hmem
  rw [hid]
  exact (ObjectId.dotted_of_ofDotted? (ObjectId.ofDotted?_dotted hreadable.registrable hreadable.arcs_lt)).symm

/-- An encoded set has one element for each extension, with the object identifier that the extension's identifier stands
for. No object identifier comes twice exactly where no two identifiers have the same plain text; so it is where all
identifiers are plain texts, and where the set has been read. -/
theorem toDer_identifiers (h : set.toDer = .ok der) :
    (∀ extension ∈ set.toList, ObjectId.ofDotted? extension.identifier = some extension.parsedId) ∧
      der = constructed .sequence (set.toList.flatMap fun extension => extension.encode extension.parsedId.content) ∧
      (∀ a ∈ set.toList, ∀ b ∈ set.toList, a.parsedId.content = b.parsedId.content ↔
        ObjectId.plainText a.identifier = ObjectId.plainText b.identifier) ∧
      (set.encodedContents.Nodup ↔ set.plainTexts.Nodup) ∧
      ((∀ extension ∈ set.toList, ObjectId.plainText extension.identifier = extension.identifier) →
        set.encodedContents.Nodup) ∧
      ∀ bytes, fromDer bytes = .ok set → set.encodedContents.Nodup := by
  obtain ⟨hder, hencode⟩ := toDer_eq_ok h
  have hplain (hplain : ∀ extension ∈ set.toList, ObjectId.plainText extension.identifier = extension.identifier) :
      set.encodedContents.Nodup := (nodup_content_iff h).mpr (nodup_plainTexts hplain)
  refine ⟨?_, ?_, fun a ha b hb => content_parsedId_eq_iff h ha hb, nodup_content_iff h, hplain, ?_⟩
  · intro extension hmem
    obtain ⟨id, content, hid, -⟩ := hencode extension hmem
    rw [hid, Extension.parsedId_eq hid]
  · rw [hder]
    exact congrArg (constructed .sequence) (List.flatMap_congr fun extension hmem => encoding_eq h hmem)
  · intro bytes hread
    exact hplain fun extension hmem => plainText_of_fromDer hread hmem

/-- Two extensions under texts that stand for one object identifier. -/
def twofoldKeyUsage : ExtensionSet :=
  empty.insertAll [⟨"2.5.29.15", false, [4, 0]⟩, ⟨"+2.5.29.15", false, [4, 1, 99]⟩]

theorem toDer_identifiers_twofoldKeyUsage :
    let set := twofoldKeyUsage
    let der := set.toDer.toOption.getD []
    set.toDer = .ok der ∧ (set.encodedContents.Nodup ↔ set.plainTexts.Nodup) ∧
      ∀ a ∈ set.toList, ∀ b ∈ set.toList, a.parsedId.content = b.parsedId.content ↔
        ObjectId.plainText a.identifier = ObjectId.plainText b.identifier := by
  intro set der
  have h : set.toDer = .ok der := by decide
  obtain ⟨-, -, hcontent, hnodup, -⟩ := toDer_identifiers h
  exact ⟨h, hnodup, hcontent⟩

/-- One object identifier comes twice in what is written, and of its extensions only the last one is read. -/
theorem toDer_twofoldKeyUsage :
    let set := twofoldKeyUsage
    let identifier := primitive .objectIdentifier (ObjectId.content ⟨[2, 5, 29, 15]⟩)
    let der := constructed .sequence
      (constructed .sequence (identifier ++ [4, 1, 99]) ++ constructed .sequence (identifier ++ [4, 0]))
    set.size = 2 ∧ set.toDer = .ok der ∧ ¬set.encodedContents.Nodup ∧
      fromDer der = .ok (empty.insert ⟨"2.5.29.15", false, [4, 0]⟩) := by
  decide

end CertExtensions.ExtensionSet
