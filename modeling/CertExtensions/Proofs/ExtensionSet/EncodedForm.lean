import CertExtensions.ExtensionSet.Der
import CertExtensions.Proofs.Asn1.Element
import CertExtensions.Proofs.ExtensionSet.Contents
import CertExtensions.Proofs.ObjectId
import CertExtensions.Proofs.Reader

/-!
# Encoding a set and reading it again

What becomes of the encoding of a set is said once (`toDer_eq`). An extension that is written with the content of its
identifier is read back (`read_encode`), unless the identifier cannot be read because a number in it has a zero digit
that more digits follow. A set whose encoding exists is read back exactly where no identifier is of that kind, and
refused otherwise (`fromDer_toDer`).
-/

namespace CertExtensions

open Asn1

namespace Extension

/-- An identifier in the form in which arcs are written, and a value that is one encoded octet string. -/
structure Canonical (extension : Extension) : Prop where
  identifier : ∃ id, ObjectId.ofDotted? extension.identifier = some id ∧ id.dotted = extension.identifier
  value : ∃ octets, extension.value = primitive .octetString octets

/-- The object identifier of an extension that has one. -/
def parsedId (extension : Extension) : ObjectId :=
  (ObjectId.ofDotted? extension.identifier).getD ⟨[]⟩

/-- The encoding of an extension whose identifier has one. -/
def encoding (extension : Extension) : List UInt8 :=
  extension.encode (extension.parsedId.encode?.getD [])

/-- The encoded identifier is refused: a number in it has a zero digit that more digits follow. -/
def Unreadable (extension : Extension) : Prop :=
  ∃ n ∈ extension.parsedId.numbers, ObjectId.HasInnerZero n

instance : DecidablePred Unreadable := fun extension =>
  inferInstanceAs (Decidable (∃ n ∈ extension.parsedId.numbers, ObjectId.HasInnerZero n))

variable {extension : Extension}

theorem parsedId_eq {id : ObjectId} (h : ObjectId.ofDotted? extension.identifier = some id) :
    extension.parsedId = id := by
  rw [parsedId, h, Option.getD_some]

/-- Identifier and value are elements so short that the readers can count their bytes. -/
structure EncodingFits (content octets : List UInt8) : Prop where
  identifier : Element.Fits .objectIdentifier false content
  value : Element.Fits .octetString false octets

private theorem encodingFits_of_length {content octets : List UInt8}
    (hvalue : extension.value = primitive .octetString octets)
    (h : (extension.encode content).length < wordLimit) : EncodingFits content octets := by
  have hcontent := Nat.lt_trans (Element.length_content_lt .sequence true _) h
  rw [hvalue, List.length_append, List.length_append] at hcontent
  unfold primitive at hcontent
  constructor
  · refine ⟨by decide, ?_⟩
    omega
  · refine ⟨by decide, ?_⟩
    omega

/-- The components behind the identifier: the criticality, if it is written, and the value. -/
private theorem read_value {octets : List UInt8} (critical : Bool) (h : Element.Fits .octetString false octets)
    (next : Option Bool → List UInt8 → Fields Extension) :
    (do
      let critical? ← boolean.optional
      let value ← octetString.required
      next critical? value)
      ((if critical then primitive .boolean [255] else []) ++ primitive .octetString octets) =
    next (if critical then some true else none) octets [] := by
  have hvalue : octetString.required (primitive .octetString octets) = .ok (octets, []) := by
    have hread := TaggedType.required_make (t := octetString) h []
    rw [List.append_nil] at hread
    exact hread
  -- where the criticality is not written, its reader meets the tag of the value
  have hskip : boolean.optional (primitive .octetString octets) = .ok (none, primitive .octetString octets) := by
    have hne : Tag.octetString ≠ boolean.tag := show Tag.octetString ≠ Tag.boolean by decide
    rw [← List.append_nil (primitive .octetString octets)]
    exact TaggedType.optional_make_absent hne h.number []
  have hcritical : boolean.optional
      ((if critical then primitive .boolean [255] else []) ++ primitive .octetString octets) =
        .ok (if critical then some true else none, primitive .octetString octets) :=
    TaggedType.optional_written (fun _ => ⟨by decide, by decide⟩) (fun _ => rfl) hskip
  rw [Reader.bind_of_ok hcritical, Reader.bind_of_ok hvalue]

/-- What the decoder of extensions makes of a written one is up to its identifier. -/
private theorem decode_encode {content octets : List UInt8} (hvalue : extension.value = primitive .octetString octets)
    (hfits : EncodingFits content octets) :
    taggedType.decode (Element.make .sequence true <| primitive .objectIdentifier content ++
        (if extension.critical then primitive .boolean [255] else []) ++ extension.value) =
      (ObjectId.decode content).map fun id => wrapped id extension.critical octets := by
  have hid : Asn1.objectId.required
      (primitive .objectIdentifier content ++
        ((if extension.critical then primitive .boolean [255] else []) ++ primitive .octetString octets)) =
      (ObjectId.decode content).map
        (·, (if extension.critical then primitive .boolean [255] else []) ++ primitive .octetString octets) :=
    TaggedType.required_make (t := Asn1.objectId) hfits.identifier _
  rw [hvalue, List.append_assoc]
  refine (TaggedType.decode_ofComponents .sequence _).trans ?_
  unfold Fields.exhaust StateT.run
  cases hdecode : ObjectId.decode content with
  | error fault =>
    rw [hdecode] at hid
    rw [Reader.bind_of_error hid]
    rfl
  | ok id =>
    rw [hdecode] at hid
    rw [Reader.bind_of_ok hid, read_value extension.critical hfits.value]
    cases extension.critical <;> rfl

/-- A written extension is read back if its identifier can be read. -/
theorem read_encode {id : ObjectId} {content octets : List UInt8}
    (hid : ObjectId.ofDotted? extension.identifier = some id) (hdotted : id.dotted = extension.identifier)
    (hvalue : extension.value = primitive .octetString octets) (hcontent : id.encode? = some content)
    (h : (extension.encode content).length < wordLimit) (rest : List UInt8) :
    taggedType.schema.read (extension.encode content ++ rest) =
      .ofResult (if extension.Unreadable then .error .invalid else .ok extension) rest := by
  have hfits : Element.Fits .sequence true (primitive .objectIdentifier content ++
      (if extension.critical then primitive .boolean [255] else []) ++ extension.value) := ⟨by decide, h⟩
  have hread := TaggedType.read_make (t := taggedType) hfits rest
  have hwrapped : wrapped id extension.critical octets = extension := by
    rw [wrapped, hdotted, ← hvalue]
  refine hread.trans (congrArg (Outcome.ofResult · rest) ?_)
  refine (decode_encode hvalue (encodingFits_of_length hvalue h)).trans ?_
  have hiff : extension.Unreadable ↔ ∃ n ∈ id.numbers, ObjectId.HasInnerZero n := by
    rw [Unreadable, parsedId_eq hid]
  rw [ObjectId.decode_encode? hid hcontent]
  by_cases hzero : ∃ n ∈ id.numbers, ObjectId.HasInnerZero n
  · rw [if_pos hzero, if_pos (hiff.mpr hzero)]
    rfl
  · rw [if_neg hzero, if_neg (mt hiff.mp hzero), ← hwrapped]
    rfl

end Extension

namespace ExtensionSet

variable {set : ExtensionSet} {der : List UInt8}

/-- The first extension whose identifier is not a dotted object identifier. -/
def firstUndotted? (set : ExtensionSet) : Option Extension :=
  set.toList.find? fun extension => (ObjectId.ofDotted? extension.identifier).isNone

private theorem mapM_objectId (extensions : List Extension) :
    (extensions.mapM fun extension => do return (← extension.objectId, extension)) =
      match extensions.find? fun extension => (ObjectId.ofDotted? extension.identifier).isNone with
      | some rejected => .error (.identifier rejected.identifier)
      | none => .ok (extensions.map fun extension => (extension.parsedId, extension)) := by
  induction extensions with
  | nil => rfl
  | cons extension extensions ih =>
    rw [List.mapM_cons, ih, List.find?_cons]
    cases hid : ObjectId.ofDotted? extension.identifier with
    | none =>
      simp only [Extension.objectId, hid, Option.isNone_none]
      rfl
    | some id =>
      simp only [Extension.objectId, hid, Option.isNone_some, List.map_cons, Extension.parsedId_eq hid]
      cases extensions.find? fun extension => (ObjectId.ofDotted? extension.identifier).isNone <;> rfl

private theorem mapM_elementDer (extensions : List Extension) :
    (extensions.map fun extension => (extension.parsedId, extension)).mapM elementDer =
      if ∃ extension ∈ extensions, extension.parsedId.encode? = none then .error .arcOverflow
      else .ok (extensions.map Extension.encoding) := by
  have hstep : (elementDer ∘ fun extension => (extension.parsedId, extension)) = fun extension =>
      if extension.parsedId.encode? = none then .error .arcOverflow else .ok extension.encoding := by
    funext extension
    simp only [Function.comp, elementDer, Extension.encoding]
    cases extension.parsedId.encode? <;> rfl
  rw [List.mapM_map, hstep, Reader.mapM_ite]

/-- What becomes of the encoding of a set: an identifier that is not a dotted object identifier is noticed first, then
one that cannot be encoded; otherwise the encodings of the extensions stand one after the other. -/
theorem toDer_eq (set : ExtensionSet) :
    set.toDer =
      match set.firstUndotted? with
      | some rejected => .error (.identifier rejected.identifier)
      | none =>
        if ∃ extension ∈ set.toList, extension.parsedId.encode? = none then .error .arcOverflow
        else .ok (constructed .sequence (set.toList.flatMap Extension.encoding)) := by
  unfold toDer firstUndotted?
  rw [mapM_objectId]
  cases set.toList.find? fun extension => (ObjectId.ofDotted? extension.identifier).isNone with
  | some rejected => rfl
  | none =>
    change (((set.toList.map fun extension => (extension.parsedId, extension)).mapM elementDer) >>= fun elements =>
      pure (constructed .sequence elements.flatten)) = _
    rw [mapM_elementDer, List.flatMap_def]
    split <;> rfl

theorem ofDotted?_of_firstUndotted? (h : set.firstUndotted? = none) {extension : Extension}
    (hmem : extension ∈ set.toList) : ObjectId.ofDotted? extension.identifier = some extension.parsedId := by
  have hdotted := List.find?_eq_none.mp h extension hmem
  rw [Option.isNone_iff_eq_none, ← Ne, Option.ne_none_iff_exists'] at hdotted
  obtain ⟨id, hid⟩ := hdotted
  rw [hid, Extension.parsedId_eq hid]

/-- A set that can be encoded has extensions with encodings, which stand one after the other. -/
theorem toDer_eq_ok (h : set.toDer = .ok der) :
    der = constructed .sequence (set.toList.flatMap Extension.encoding) ∧
      ∀ extension ∈ set.toList, ∃ id content,
        ObjectId.ofDotted? extension.identifier = some id ∧ id.encode? = some content := by
  rw [toDer_eq] at h
  cases hfirst : set.firstUndotted? with
  | some rejected =>
    rw [hfirst] at h
    cases h
  | none =>
    rw [hfirst] at h
    dsimp only at h
    split at h
    · cases h
    · next hencodable =>
      cases h
      refine ⟨rfl, fun extension hmem => ?_⟩
      obtain ⟨content, hcontent⟩ := Option.ne_none_iff_exists'.mp fun hnone => hencodable ⟨extension, hmem, hnone⟩
      exact ⟨extension.parsedId, content, ofDotted?_of_firstUndotted? hfirst hmem, hcontent⟩

/-- No element of a sequence is longer than the sequence. -/
private theorem length_encoding_le {extension : Extension} (hmem : extension ∈ set.toList) :
    extension.encoding.length ≤ (constructed .sequence (set.toList.flatMap Extension.encoding)).length := by
  have hlength := Element.length_content_lt .sequence true (set.toList.flatMap Extension.encoding)
  have hsub := (List.sublist_flatten_of_mem (List.mem_map_of_mem (f := Extension.encoding) hmem)).length_le
  rw [← List.flatMap_def] at hsub
  exact Nat.le_trans hsub (Nat.le_of_lt hlength)

/-- A set is read back exactly where every identifier can be read, and refused otherwise. Its encoding is taken to
have fewer than 2 to the 64 bytes, as a byte string in memory has. -/
theorem fromDer_toDer (hcanonical : ∀ extension ∈ set.toList, extension.Canonical) (h : set.toDer = .ok der)
    (hlength : der.length < wordLimit) :
    fromDer der =
      if ∃ extension ∈ set.toList, extension.Unreadable then .error (.decode .invalid) else .ok set := by
  obtain ⟨rfl, hencode⟩ := toDer_eq_ok h
  have hread : ∀ extension ∈ set.toList, ∀ rest,
      Extension.taggedType.schema.read (extension.encoding ++ rest) =
        .ofResult (if extension.Unreadable then .error .invalid else .ok extension) rest := by
    intro extension hmem rest
    obtain ⟨id, content, hid, hcontent⟩ := hencode extension hmem
    obtain ⟨⟨id', hid', hdotted⟩, octets, hvalue⟩ := hcanonical extension hmem
    obtain rfl : id = id' := Option.some.inj (hid.symm.trans hid')
    have hencoding : extension.encoding = extension.encode content := by
      rw [Extension.encoding, Extension.parsedId_eq hid, hcontent, Option.getD_some]
    -- an element of the sequence is no longer than the whole, so the readers can count its bytes
    have hle := Nat.lt_of_le_of_lt (length_encoding_le hmem) hlength
    rw [hencoding] at hle ⊢
    exact Extension.read_encode hid hdotted hvalue hcontent hle rest
  have hfits : Element.Fits .sequence true (set.toList.flatMap Extension.encoding) := ⟨by decide, hlength⟩
  have hdecode : (TaggedType.sequenceOf Extension.taggedType.schema).decode
      (Element.make .sequence true (set.toList.flatMap Extension.encoding)) = _ := TaggedType.decode_sequenceOf hread
  rw [Reader.mapM_guard] at hdecode
  have hwhole : (TaggedType.sequenceOf Extension.taggedType.schema).whole
      (constructed .sequence (set.toList.flatMap Extension.encoding)) =
        if ∃ extension ∈ set.toList, extension.Unreadable then .error .invalid else .ok set.toList :=
    (TaggedType.whole_make (t := .sequenceOf Extension.taggedType.schema) hfits).trans hdecode
  rw [fromDer, hwhole]
  by_cases hunreadable : ∃ extension ∈ set.toList, extension.Unreadable
  · rw [if_pos hunreadable, if_pos hunreadable]
  · rw [if_neg hunreadable, if_neg hunreadable]
    exact congrArg Except.ok (insertAll_toList set)

/-- A critical key usage and basic constraints that are not critical. -/
def usageAndConstraints : ExtensionSet :=
  empty.insertAll [⟨"2.5.29.15", true, [4, 4, 3, 2, 1, 6]⟩, ⟨"2.5.29.19", false, [4, 2, 48, 0]⟩]

theorem fromDer_toDer_usageAndConstraints :
    let set := usageAndConstraints
    let der := set.toDer.toOption.getD []
    (∀ extension ∈ set.toList, extension.Canonical) ∧ set.toDer = .ok der ∧ der.length < wordLimit ∧
      fromDer der =
        if ∃ extension ∈ set.toList, extension.Unreadable then .error (.decode .invalid) else .ok set := by
  intro set der
  have hlist : set.toList = [⟨"2.5.29.15", true, [4, 4, 3, 2, 1, 6]⟩, ⟨"2.5.29.19", false, [4, 2, 48, 0]⟩] := by
    rfl
  have hcanonical : ∀ extension ∈ set.toList, extension.Canonical := by
    rw [hlist]
    simp only [List.forall_mem_cons, List.not_mem_nil, false_implies, implies_true, and_true]
    refine ⟨⟨⟨⟨[2, 5, 29, 15]⟩, ?_, ?_⟩, ⟨[3, 2, 1, 6], ?_⟩⟩, ⟨⟨⟨[2, 5, 29, 19]⟩, ?_, ?_⟩, ⟨[48, 0], ?_⟩⟩⟩ <;>
      rfl
  have h : set.toDer = .ok der := rfl
  have hlength : der.length < wordLimit := by decide
  exact ⟨hcanonical, h, hlength, fromDer_toDer hcanonical h hlength⟩

/-- The last number of the identifier has the digits 1, 0 and 0 in base 128. -/
theorem fromDer_toDer_innerZero :
    let set := empty.insert ⟨"1.3.16384", false, [4, 0]⟩
    (∀ extension ∈ set.toList, extension.Canonical) ∧
      ∃ der, set.toDer = .ok der ∧ fromDer der = .error (.decode .invalid) := by
  intro set
  have hlist : set.toList = [⟨"1.3.16384", false, [4, 0]⟩] := by decide
  constructor
  · rw [hlist, List.forall_mem_singleton]
    refine ⟨⟨⟨[1, 3, 16384]⟩, ?_, ?_⟩, ⟨[], ?_⟩⟩ <;> rfl
  · refine ⟨set.toDer.toOption.getD [], ?_, ?_⟩ <;> decide

end ExtensionSet

end CertExtensions
