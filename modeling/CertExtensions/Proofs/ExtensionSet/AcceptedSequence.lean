import CertExtensions.ExtensionSet.Der
import CertExtensions.Proofs.Asn1.AcceptedElement
import CertExtensions.Proofs.ExtensionSet.Contents
import CertExtensions.Proofs.ObjectId.Content
import CertExtensions.Proofs.ObjectId.Dotted

/-!
# What an encoded sequence of extensions holds

A sequence of extensions can be encoded in many forms: lengths may have zeros in front, a criticality that is false may
be written, and an object identifier may come several times. `IsSequenceOf` holds of all forms of a list of extensions.
Bytes are read as a set exactly where they are such a form (`fromDer_eq_ok_iff`), of one list only
(`IsSequenceOf.unique`). Of the forms of an extension, the one that is written is the shortest
(`Occurrence.IsEncoding.length_shortest_le`).
-/

namespace CertExtensions

open Asn1 Reader

/-- One extension in a sequence: its object identifier, its criticality, and the content of the octet string that is its
value. -/
@[ext]
structure Occurrence where
  id : ObjectId
  critical : Bool
  octets : List UInt8
  deriving DecidableEq, Repr

/-! ### One extension -/

namespace Occurrence

/-- The extension as a set has it. -/
def extension (o : Occurrence) : Extension :=
  ⟨o.id.dotted, o.critical, primitive .octetString o.octets⟩

/-- Whether the bytes tell the criticality; no bytes tell that it is false. -/
def IsFlag (critical : Bool) (bytes : List UInt8) : Prop :=
  critical = false ∧ bytes = [] ∨ IsElement .boolean false [if critical then 255 else 0] bytes

/-- Whether the bytes are a sequence of the object identifier, the criticality and the value. -/
def IsEncoding (o : Occurrence) (bytes : List UInt8) : Prop :=
  o.id.Readable ∧ ∃ identifier flag value, IsElement .objectIdentifier false o.id.content identifier ∧
    IsFlag o.critical flag ∧ IsElement .octetString false o.octets value ∧
    IsElement .sequence true (identifier ++ (flag ++ value)) bytes

/-- The shortest form of the extension, in which a criticality that is false is not written. -/
def shortest (o : Occurrence) : List UInt8 :=
  o.extension.encode o.id.content

variable {o other : Occurrence} {bytes : List UInt8}

theorem IsEncoding.length_shortest_le (h : o.IsEncoding bytes) : o.shortest.length ≤ bytes.length := by
  obtain ⟨-, identifier, flag, value, hidentifier, hflag, hvalue, helement⟩ := h
  have hid : (primitive .objectIdentifier o.id.content).length ≤ identifier.length :=
    hidentifier.length_make_le (Nat.le_refl _)
  have hoctets : (primitive .octetString o.octets).length ≤ value.length := hvalue.length_make_le (Nat.le_refl _)
  have hcritical : (if o.critical then primitive .boolean [255] else []).length ≤ flag.length := by
    obtain ⟨hfalse, rfl⟩ | hflag := hflag
    · rw [hfalse]
      exact Nat.le_refl 0
    · split
      · exact hflag.length_make_le (Nat.le_refl 1)
      · exact Nat.zero_le _
  refine helement.length_make_le ?_
  rw [extension]
  simp only [List.length_append]
  omega

theorem IsEncoding.length_value_lt (h : o.IsEncoding bytes) :
    (primitive .octetString o.octets).length < bytes.length := by
  obtain ⟨-, identifier, flag, value, -, -, hvalue, helement⟩ := h
  have hoctets : (primitive .octetString o.octets).length ≤ value.length := hvalue.length_make_le (Nat.le_refl _)
  have hcontent := helement.length_content_lt
  simp only [List.length_append] at hcontent
  omega

theorem isEncoding_shortest (h : o.id.Readable) (hlt : o.shortest.length < wordLimit) : o.IsEncoding o.shortest := by
  have hcontent := Nat.lt_trans (Element.length_content_lt .sequence true _) hlt
  have hid := Element.length_content_lt .objectIdentifier false o.id.content
  have hvalue := Element.length_content_lt .octetString false o.octets
  refine ⟨h, primitive .objectIdentifier o.id.content, if o.critical then primitive .boolean [255] else [],
    primitive .octetString o.octets, ?_, ?_, ?_, ?_⟩
  · refine isElement_make ?_ _ _
    simp only [extension, primitive, List.length_append] at hcontent
    omega
  · cases hcritical : o.critical with
    | false => exact .inl ⟨rfl, rfl⟩
    | true => exact .inr (isElement_make (by decide) _ _)
  · refine isElement_make ?_ _ _
    simp only [extension, primitive, List.length_append] at hcontent
    omega
  · rw [← List.append_assoc]
    exact isElement_make hcontent .sequence true

private theorem extension_inj (hlt : (primitive .octetString o.octets).length < wordLimit)
    (h : o.extension = other.extension) : o = other := by
  have hid : o.id.dotted = other.id.dotted := congrArg Extension.identifier h
  have hcritical : o.critical = other.critical := congrArg Extension.critical h
  have hvalue : primitive .octetString o.octets = primitive .octetString other.octets := congrArg Extension.value h
  have hread : octetString.whole (primitive .octetString o.octets) = .ok o.octets :=
    TaggedType.whole_make (t := octetString) ⟨by decide, hlt⟩
  rw [hvalue] at hlt hread
  have hreadOther : octetString.whole (primitive .octetString other.octets) = .ok other.octets :=
    TaggedType.whole_make (t := octetString) ⟨by decide, hlt⟩
  rw [hreadOther] at hread
  exact Occurrence.ext (ObjectId.dotted_injective hid) hcritical (Except.ok.inj hread).symm

end Occurrence

namespace Extension

variable {bytes : List UInt8} {extension : Extension}

private theorem isEncoding_objectId_iff {id : ObjectId} :
    Asn1.objectId.IsEncoding id bytes ↔ id.Readable ∧ IsElement .objectIdentifier false id.content bytes := by
  rw [Asn1.objectId, TaggedType.isEncoding_ofContent_iff]
  constructor
  · rintro ⟨content, helement, hdecode⟩
    obtain ⟨hreadable, rfl⟩ := ObjectId.decode_eq_ok_iff.mp hdecode
    exact ⟨hreadable, helement⟩
  · rintro ⟨hreadable, helement⟩
    exact ⟨_, helement, ObjectId.decode_eq_ok_iff.mpr ⟨hreadable, rfl⟩⟩

private theorem isEncoding_octetString_iff {octets : List UInt8} :
    octetString.IsEncoding octets bytes ↔ IsElement .octetString false octets bytes := by
  rw [octetString, TaggedType.isEncoding_ofContent_iff]
  constructor
  · rintro ⟨content, helement, hcontent⟩
    cases hcontent
    exact helement
  · exact fun helement => ⟨octets, helement, rfl⟩

private theorem isEncoding_boolean_iff {b : Bool} :
    boolean.IsEncoding b bytes ↔ IsElement .boolean false [if b then 255 else 0] bytes := by
  rw [boolean, TaggedType.isEncoding_ofContent_iff]
  constructor
  · rintro ⟨content, helement, hcontent⟩
    split at hcontent
    · cases hcontent
      exact helement
    · cases hcontent
      exact helement
    · cases hcontent
  · intro helement
    refine ⟨_, helement, ?_⟩
    cases b <;> rfl

/-- Bytes that are read as an extension are a form of it. -/
private theorem exists_occurrence (h : taggedType.IsEncoding extension bytes) :
    ∃ o : Occurrence, o.IsEncoding bytes ∧ o.extension = extension := by
  obtain ⟨content, helement, hfields⟩ := TaggedType.isEncoding_ofComponents_iff.mp h
  obtain ⟨id, atFlag, hid, hfields⟩ := step_of_bind_eq_ok (Fields.exhaust_eq_ok_iff.mp hfields)
  obtain ⟨critical?, atValue, hcritical, hfields⟩ := step_of_bind_eq_ok hfields
  obtain ⟨octets, rest, hoctets, hfields⟩ := step_of_bind_eq_ok hfields
  cases hfields
  obtain ⟨identifier, hidentifier, rfl⟩ := TaggedType.required_eq_ok (by decide) hid
  obtain ⟨hreadable, hidentifier⟩ := isEncoding_objectId_iff.mp hidentifier
  obtain ⟨value, hvalue, rfl⟩ := TaggedType.required_eq_ok (by decide) hoctets
  rw [isEncoding_octetString_iff] at hvalue
  rw [List.append_nil] at *
  obtain ⟨flag, hflag, rfl⟩ : ∃ flag, Occurrence.IsFlag (critical?.getD false) flag ∧ atFlag = flag ++ value := by
    obtain ⟨rfl, rfl⟩ | ⟨critical, flag, rfl, hflag, rfl⟩ := TaggedType.optional_eq_ok (by decide) hcritical
    · exact ⟨[], .inl ⟨rfl, rfl⟩, rfl⟩
    · exact ⟨flag, .inr (isEncoding_boolean_iff.mp hflag), rfl⟩
  exact ⟨⟨id, critical?.getD false, octets⟩,
    ⟨hreadable, identifier, flag, value, hidentifier, hflag, hvalue, helement⟩, rfl⟩

/-- A form of an extension is read as the extension. -/
private theorem isEncoding_of_occurrence {o : Occurrence} (h : o.IsEncoding bytes) (hlt : bytes.length < wordLimit) :
    taggedType.IsEncoding o.extension bytes := by
  obtain ⟨hreadable, identifier, flag, value, hidentifier, hflag, hvalue, helement⟩ := h
  refine TaggedType.isEncoding_ofComponents_iff.mpr ⟨_, helement, Fields.exhaust_eq_ok_iff.mpr ?_⟩
  have hcontent := Nat.lt_trans helement.length_content_lt hlt
  simp only [List.length_append] at hcontent
  have hid : Asn1.objectId.required (identifier ++ (flag ++ value)) = .ok (o.id, flag ++ value) :=
    TaggedType.required_of_isEncoding (by decide) (isEncoding_objectId_iff.mpr ⟨hreadable, hidentifier⟩) (by omega) _
  have hoctets : octetString.required value = .ok (o.octets, []) := by
    have hread := TaggedType.required_of_isEncoding (by decide) (isEncoding_octetString_iff.mpr hvalue) (by omega) []
    rwa [List.append_nil] at hread
  obtain ⟨critical?, hgetD, hcritical⟩ : ∃ critical?, critical?.getD false = o.critical ∧
      boolean.optional (flag ++ value) = .ok (critical?, value) := by
    obtain ⟨hfalse, rfl⟩ | hflag := hflag
    · -- where the criticality is not written, its reader meets the tag of the value
      have hne : Tag.octetString ≠ boolean.tag := show Tag.octetString ≠ Tag.boolean by decide
      have hskip := TaggedType.optional_of_isElement hne (by decide) hvalue []
      rw [List.append_nil] at hskip
      exact ⟨none, hfalse.symm, hskip⟩
    · exact ⟨some o.critical, rfl,
        TaggedType.optional_of_isEncoding (by decide) (isEncoding_boolean_iff.mpr hflag) (by omega) value⟩
  rw [bind_of_ok hid, bind_of_ok hcritical, bind_of_ok hoctets, hgetD]
  rfl

end Extension

/-! ### Sequences of extensions -/

namespace ExtensionSet

variable {bytes : List UInt8} {occurrences : List Occurrence}

/-- Whether the bytes are a sequence of the extensions, in this order. -/
def IsSequenceOf (occurrences : List Occurrence) (bytes : List UInt8) : Prop :=
  ∃ elements, List.Forall₂ Occurrence.IsEncoding occurrences elements ∧
    IsElement .sequence true elements.flatten bytes

private theorem exists_occurrences {extensions : List Extension} {elements : List (List UInt8)}
    (h : List.Forall₂ Extension.taggedType.IsEncoding extensions elements) :
    ∃ occurrences, List.Forall₂ Occurrence.IsEncoding occurrences elements ∧
      occurrences.map (·.extension) = extensions := by
  induction h with
  | nil => exact ⟨[], .nil, rfl⟩
  | cons hfirst hrest ih =>
    obtain ⟨o, ho, rfl⟩ := Extension.exists_occurrence hfirst
    obtain ⟨more, hmore, rfl⟩ := ih
    exact ⟨o :: more, .cons ho hmore, rfl⟩

private theorem isEncoding_of_occurrences {elements : List (List UInt8)}
    (h : List.Forall₂ Occurrence.IsEncoding occurrences elements) (hlt : elements.flatten.length < wordLimit) :
    List.Forall₂ Extension.taggedType.IsEncoding (occurrences.map (·.extension)) elements := by
  induction h with
  | nil => exact .nil
  | cons hfirst hrest ih =>
    rw [List.flatten_cons, List.length_append] at hlt
    exact .cons (Extension.isEncoding_of_occurrence hfirst (by omega)) (ih (by omega))

/-- The bytes of a sequence are read as the extensions of which they are a form. -/
private theorem whole_eq_ok_iff {extensions : List Extension} :
    (TaggedType.sequenceOf Extension.taggedType.schema).whole bytes = .ok extensions ↔
      bytes.length < wordLimit ∧
        ∃ occurrences, IsSequenceOf occurrences bytes ∧ occurrences.map (·.extension) = extensions := by
  rw [TaggedType.whole_eq_ok_iff (show Tag.sequence.number < 31 by decide), and_comm]
  refine and_congr_right fun hlt => ?_
  rw [TaggedType.sequenceOf, TaggedType.sequence, TaggedType.isEncoding_ofComponents_iff]
  simp only [Fields.exhaust_eq_ok_iff]
  constructor
  · rintro ⟨content, helement, hmany⟩
    obtain ⟨elements, hall, rfl⟩ := TaggedType.many_eq_ok (show Tag.sequence.number < 31 by decide) hmany
    obtain ⟨occurrences, hoccurrences, rfl⟩ := exists_occurrences hall
    exact ⟨occurrences, ⟨elements, hoccurrences, helement⟩, rfl⟩
  · rintro ⟨occurrences, ⟨elements, hoccurrences, helement⟩, rfl⟩
    have hcontent := Nat.lt_trans helement.length_content_lt hlt
    exact ⟨elements.flatten, helement, TaggedType.many_flatten (show Tag.sequence.number < wordLimit by decide)
      (isEncoding_of_occurrences hoccurrences hcontent) hcontent⟩

/-- Bytes are read as a set exactly where they are a sequence of extensions in any of its forms. -/
theorem fromDer_eq_ok_iff {set : ExtensionSet} :
    fromDer bytes = .ok set ↔ bytes.length < wordLimit ∧
      ∃ occurrences, IsSequenceOf occurrences bytes ∧ empty.insertAll (occurrences.map (·.extension)) = set := by
  constructor
  · intro h
    unfold fromDer at h
    cases hwhole : (TaggedType.sequenceOf Extension.taggedType.schema).whole bytes with
    | error fault =>
      rw [hwhole] at h
      cases h
    | ok extensions =>
      rw [hwhole] at h
      cases h
      obtain ⟨hlt, occurrences, hsequence, rfl⟩ := whole_eq_ok_iff.mp hwhole
      exact ⟨hlt, occurrences, hsequence, rfl⟩
  · rintro ⟨hlt, occurrences, hsequence, rfl⟩
    rw [fromDer, whole_eq_ok_iff.mpr ⟨hlt, occurrences, hsequence, rfl⟩]

/-! ### One list of extensions -/

private theorem map_extension_inj {elements : List (List UInt8)} {others : List Occurrence}
    (h : List.Forall₂ Occurrence.IsEncoding occurrences elements) (hlt : elements.flatten.length < wordLimit)
    (heq : occurrences.map (·.extension) = others.map (·.extension)) : occurrences = others := by
  induction h generalizing others with
  | nil => exact (List.map_eq_nil_iff.mp heq.symm).symm
  | @cons o element _ _ hfirst _ ih =>
    cases others with
    | nil => cases heq
    | cons other others =>
      rw [List.flatten_cons, List.length_append] at hlt
      obtain ⟨hext, hmore⟩ := List.cons.inj heq
      rw [Occurrence.extension_inj (Nat.lt_trans hfirst.length_value_lt (by omega)) hext, ih (by omega) hmore]

/-- Bytes that are read are a form of one list of extensions only. -/
theorem IsSequenceOf.unique {others : List Occurrence} (h : IsSequenceOf occurrences bytes)
    (hothers : IsSequenceOf others bytes) (hlt : bytes.length < wordLimit) : occurrences = others := by
  have hread := whole_eq_ok_iff.mpr ⟨hlt, occurrences, h, rfl⟩
  rw [whole_eq_ok_iff.mpr ⟨hlt, others, hothers, rfl⟩, Except.ok.injEq] at hread
  obtain ⟨elements, hall, helement⟩ := h
  exact map_extension_inj hall (Nat.lt_trans helement.length_content_lt hlt) hread.symm

end ExtensionSet

end CertExtensions
