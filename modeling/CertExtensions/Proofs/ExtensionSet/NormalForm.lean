import CertExtensions.Proofs.ExtensionSet.AcceptedSequence
import CertExtensions.Proofs.ExtensionSet.EncodedForm
import Mathlib.Data.List.Flatten
import Mathlib.Data.List.Nodup
import Mathlib.Data.List.Perm.Subperm

/-!
# Encoding what has been read

The set that is read from a sequence has the last extension of the sequence for each object identifier
(`find?_of_fromDer`), and these extensions in their shortest forms are what is written for the set. So the written
sequence is no longer than the one that was read, however that was encoded, and it is read as the same set
(`fromDer_normalises`).
-/

namespace CertExtensions.ExtensionSet

open Asn1

variable {bytes der : List UInt8} {occurrences normal : List Occurrence} {set : ExtensionSet}

/-! ### The last extension for each object identifier -/

private theorem find?_occurrences (occurrences : List Occurrence) (id : ObjectId) :
    (occurrences.map (·.extension)).find? (·.identifier = id.dotted) =
      (occurrences.find? (·.id = id)).map (·.extension) := by
  rw [List.find?_map]
  congr 2
  funext o
  rw [Function.comp, decide_eq_decide]
  exact ObjectId.dotted_injective.eq_iff

theorem find?_of_fromDer (h : empty.insertAll (occurrences.map (·.extension)) = set) (id : ObjectId) :
    set.find? id.dotted = (occurrences.reverse.find? (·.id = id)).map (·.extension) := by
  rw [← h, find?_insertAll, find?_empty, Option.or_none, ← List.map_reverse, find?_occurrences]

/-- Every extension of the set is one of the sequence. -/
private theorem exists_of_mem_toList (h : empty.insertAll (occurrences.map (·.extension)) = set) {extension : Extension}
    (hmem : extension ∈ set.toList) : ∃ o ∈ occurrences, o.extension = extension := by
  rw [mem_toList_iff, ← h, find?_insertAll, find?_empty, Option.or_none] at hmem
  have hlast := List.mem_of_find?_eq_some hmem
  rw [List.mem_reverse] at hlast
  exact List.mem_map.mp hlast

theorem contains_iff_of_fromDer (h : empty.insertAll (occurrences.map (·.extension)) = set) {identifier : String} :
    set.contains identifier ↔ ∃ o ∈ occurrences, o.id.dotted = identifier := by
  rw [contains_eq, Option.isSome_iff_exists]
  constructor
  · rintro ⟨extension, hfind⟩
    obtain ⟨hmem, rfl⟩ := find?_eq_some_iff.mp hfind
    obtain ⟨o, ho, rfl⟩ := exists_of_mem_toList h hmem
    exact ⟨o, ho, rfl⟩
  · rintro ⟨o, ho, rfl⟩
    rw [find?_of_fromDer h, ← Option.isSome_iff_exists, Option.isSome_map, List.find?_isSome]
    exact ⟨o, List.mem_reverse.mpr ho, decide_eq_true rfl⟩

private theorem exists_occurrences_of_forall {extensions : List Extension}
    (h : ∀ extension ∈ extensions, ∃ o ∈ occurrences, o.extension = extension) :
    ∃ chosen : List Occurrence, chosen.map (·.extension) = extensions ∧ chosen ⊆ occurrences := by
  induction extensions with
  | nil => exact ⟨[], rfl, List.nil_subset _⟩
  | cons extension extensions ih =>
    obtain ⟨⟨o, ho, rfl⟩, hmore⟩ := List.forall_mem_cons.mp h
    obtain ⟨chosen, rfl, hchosen⟩ := ih hmore
    exact ⟨o :: chosen, rfl, List.cons_subset.mpr ⟨ho, hchosen⟩⟩

/-- The extensions of the set are those of some parts of the sequence, each taken once. -/
private theorem exists_normal (h : empty.insertAll (occurrences.map (·.extension)) = set) :
    ∃ normal : List Occurrence, normal.map (·.extension) = set.toList ∧ normal.Subperm occurrences := by
  obtain ⟨normal, hmap, hsubset⟩ := exists_occurrences_of_forall fun _ hmem => exists_of_mem_toList h hmem
  -- the set has every identifier once
  have hnodup : normal.Nodup := by
    refine List.Nodup.of_map (fun o : Occurrence => o.extension.identifier) ?_
    have hids := set.nodup_identifiers_toList
    rwa [← hmap, List.map_map] at hids
  exact ⟨normal, hmap, List.subperm_of_subset hnodup hsubset⟩

/-! ### What is written for them -/

private theorem length_flatMap_shortest_le {elements : List (List UInt8)}
    (h : List.Forall₂ Occurrence.IsEncoding occurrences elements) :
    (occurrences.flatMap (·.shortest)).length ≤ elements.flatten.length := by
  induction h with
  | nil => exact Nat.le_refl 0
  | cons hfirst _ ih =>
    have := hfirst.length_shortest_le
    rw [List.flatMap_cons, List.flatten_cons, List.length_append, List.length_append]
    omega

theorem readable_of_forall₂ {elements : List (List UInt8)}
    (h : List.Forall₂ Occurrence.IsEncoding occurrences elements) : ∀ o ∈ occurrences, o.id.Readable := by
  intro o ho
  obtain ⟨element, -, hencoding⟩ := (Reader.mem_of_forall₂ h).1 o ho
  exact hencoding.1

/-- Every identifier of a set that has been read is the text of an object identifier that the reader takes. -/
theorem readable_of_fromDer (h : fromDer bytes = .ok set) {extension : Extension} (hmem : extension ∈ set.toList) :
    ∃ id : ObjectId, id.Readable ∧ extension.identifier = id.dotted := by
  obtain ⟨-, occurrences, ⟨elements, hall, -⟩, hset⟩ := fromDer_eq_ok_iff.mp h
  obtain ⟨o, ho, rfl⟩ := exists_of_mem_toList hset hmem
  exact ⟨o.id, readable_of_forall₂ hall o ho, rfl⟩

private theorem encoding_extension {o : Occurrence} {id : ObjectId} {content : List UInt8} (hreadable : o.id.Readable)
    (hid : ObjectId.ofDotted? o.extension.identifier = some id) (hcontent : id.encode? = some content) :
    o.extension.encoding = o.shortest := by
  have hdotted : ObjectId.ofDotted? o.extension.identifier = some o.id :=
    ObjectId.ofDotted?_dotted hreadable.registrable hreadable.arcs_lt
  obtain rfl : o.id = id := Option.some.inj (hdotted.symm.trans hid)
  rw [Extension.encoding, Extension.parsedId_eq hid, hcontent, Option.getD_some,
    ObjectId.eq_content_of_encode? hcontent, Occurrence.shortest]

/-- What is written for a set is the shortest form of each of its extensions, in the order of the set. -/
private theorem eq_of_toDer (hmap : normal.map (·.extension) = set.toList) (hreadable : ∀ o ∈ normal, o.id.Readable)
    (h : set.toDer = .ok der) : der = constructed .sequence (normal.flatMap (·.shortest)) := by
  obtain ⟨rfl, hencode⟩ := toDer_eq_ok h
  rw [← hmap] at hencode ⊢
  rw [List.flatMap_map]
  refine congrArg (constructed .sequence) (List.flatMap_congr ?_)
  intro o ho
  obtain ⟨id, content, hid, hcontent⟩ := hencode _ (List.mem_map_of_mem ho)
  exact encoding_extension (hreadable o ho) hid hcontent

theorem isSequenceOf_shortest (hreadable : ∀ o ∈ normal, o.id.Readable)
    (hlt : (normal.flatMap (·.shortest)).length < wordLimit) :
    IsSequenceOf normal (constructed .sequence (normal.flatMap (·.shortest))) := by
  refine ⟨normal.map (·.shortest), ?_, ?_⟩
  · rw [List.forall₂_map_right_iff, List.forall₂_same]
    intro o ho
    have hle := (List.sublist_flatten_of_mem (List.mem_map_of_mem (f := (·.shortest)) ho)).length_le
    rw [← List.flatMap_def] at hle
    exact Occurrence.isEncoding_shortest (hreadable o ho) (Nat.lt_of_le_of_lt hle hlt)
  · rw [← List.flatMap_def]
    exact isElement_make hlt _ _

/-- A set that is read from bytes has, of the one list of extensions that the bytes are a form of, the last one for each
object identifier, and no others. What is written for it is read as the same set, is written again for that, and is no
longer than the bytes. -/
theorem fromDer_normalises (h : fromDer bytes = .ok set) :
    (∃ occurrences, IsSequenceOf occurrences bytes ∧ (∀ others, IsSequenceOf others bytes → others = occurrences) ∧
      (∀ id : ObjectId, set.find? id.dotted =
        (occurrences.reverse.find? (·.id = id)).map fun o =>
          ⟨o.id.dotted, o.critical, primitive .octetString o.octets⟩) ∧
      ∀ identifier, set.contains identifier ↔ ∃ o ∈ occurrences, o.id.dotted = identifier) ∧
      ∀ der, set.toDer = .ok der →
        fromDer der = .ok set ∧ (fromDer der >>= toDer) = .ok der ∧ der.length ≤ bytes.length := by
  obtain ⟨hlt, occurrences, hsequence, hset⟩ := fromDer_eq_ok_iff.mp h
  refine ⟨⟨occurrences, hsequence, fun others hothers => hothers.unique hsequence hlt, find?_of_fromDer hset,
    fun identifier => contains_iff_of_fromDer hset⟩, ?_⟩
  intro der hder
  obtain ⟨elements, hall, helement⟩ := hsequence
  obtain ⟨normal, hmap, l, hperm, hsub⟩ := exists_normal hset
  have hreadable : ∀ o ∈ normal, o.id.Readable := fun o ho =>
    readable_of_forall₂ hall o (hsub.subset (hperm.mem_iff.mpr ho))
  have hcontent : (normal.flatMap (·.shortest)).length ≤ elements.flatten.length :=
    calc (normal.flatMap (·.shortest)).length
        = (l.flatMap (·.shortest)).length := (hperm.flatMap_right _).length_eq.symm
      _ ≤ (occurrences.flatMap (·.shortest)).length := (hsub.flatMap _).length_le
      _ ≤ elements.flatten.length := length_flatMap_shortest_le hall
  obtain rfl := eq_of_toDer hmap hreadable hder
  have hlength : (constructed .sequence (normal.flatMap (·.shortest))).length ≤ bytes.length :=
    helement.length_make_le hcontent
  have hshort := Nat.lt_of_le_of_lt hcontent (Nat.lt_trans helement.length_content_lt hlt)
  have hread : fromDer (constructed .sequence (normal.flatMap (·.shortest))) = .ok set := by
    refine fromDer_eq_ok_iff.mpr ⟨Nat.lt_of_le_of_lt hlength hlt, normal, isSequenceOf_shortest hreadable hshort, ?_⟩
    rw [hmap, insertAll_toList]
  refine ⟨hread, ?_, hlength⟩
  rw [hread]
  exact hder

/-- Three extensions in forms that are never written: basic constraints come twice, the length of the key usage has
zeros in front, and a criticality is written although it is false. -/
def roundaboutForm : List UInt8 :=
  [0x30, 0x82, 0x00, 0xa8,
    0x30, 0x0c, 0x06, 0x03, 0x55, 0x1d, 0x13, 0x01, 0x01, 0xff, 0x04, 0x02, 0x30, 0x00,
    0x30, 0x81, 0x8d, 0x06, 0x03, 0x55, 0x1d, 0x0f, 0x01, 0x01, 0x00, 0x04, 0x83, 0x00, 0x00, 0x80] ++
    List.replicate 128 0 ++
    [0x30, 0x08, 0x06, 0x03, 0x55, 0x1d, 0x13, 0x04, 0x01, 0x01]

theorem fromDer_normalises_roundaboutForm :
    let set := empty.insertAll
      [⟨"2.5.29.15", false, primitive .octetString (List.replicate 128 0)⟩, ⟨"2.5.29.19", false, [4, 1, 1]⟩]
    fromDer roundaboutForm = .ok set ∧
      ∃ der, set.toDer = .ok der ∧ fromDer der = .ok set ∧ (fromDer der >>= toDer) = .ok der ∧
        der.length ≤ roundaboutForm.length := by
  intro set
  have h : fromDer roundaboutForm = .ok set := by decide +kernel
  have hder : set.toDer = .ok (set.toDer.toOption.getD []) := rfl
  exact ⟨h, _, hder, (fromDer_normalises h).2 _ hder⟩

end CertExtensions.ExtensionSet
