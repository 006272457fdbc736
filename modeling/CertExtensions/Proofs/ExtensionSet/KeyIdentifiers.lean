import CertExtensions.Proofs.Asn1.Element
import CertExtensions.Proofs.ExtensionSet.Renewal

/-!
# New key identifiers and how they are read

What the issuer writes as its authority key identifier is read back with exactly the fields that follow from the old
one (`whole_authorityKeyIdentifier`), the name of the issuer byte for byte (`whole_encodedNames`).
So an update that succeeds does all that it should and nothing else (`update_renews`).
-/

namespace CertExtensions

open Asn1 BigEndian

/-! ### Hashes and serial numbers -/

private theorem length_sha1 (message : List UInt8) : (Hash.sha1 message).length = 20 := by
  simp only [Hash.sha1, Hash.Sha1State.bytes, List.length_flatMap, List.map_cons, List.map_nil, length_fixed]
  rfl

/-- Bytes without zeros in front, behind a zero if there are none left or the first would be a sign. -/
def unsignedContent (octets : List UInt8) : List UInt8 :=
  let digits := octets.dropWhile (· == 0)
  if digits = [] ∨ 128 ≤ digits.headD 0 then 0 :: digits else digits

private theorem positiveContent_eq (octets : List UInt8) : positiveContent octets = unsignedContent octets := by
  unfold positiveContent unsignedContent
  cases octets.dropWhile (· == 0) with
  | nil => rfl
  | cons b rest =>
    by_cases h : b < 128
    · simp [h, UInt8.not_le.mpr h]
    · simp [h, UInt8.not_lt.mp h]

/-- The content of an unsigned number is that of an integer. -/
theorem checkInteger_positiveContent (octets : List UInt8) : checkInteger (positiveContent octets) = .ok () := by
  unfold positiveContent
  cases hdigits : octets.dropWhile (· == 0) with
  | nil => rfl
  | cons b rest =>
    -- the first digit is not zero, so a zero in front of it is needed exactly for the sign
    have hhead := List.head?_dropWhile_not (· == 0) octets
    rw [hdigits] at hhead
    have hb : (b == 0) = false := hhead
    by_cases h : b < 128
    · have hsign : (b == 255) = false := by
        rw [beq_eq_false_iff_ne]
        rintro rfl
        exact absurd h (by decide)
      simp only [h, ↓reduceIte, checkInteger, List.isEmpty_cons, Bool.false_or]
      cases rest <;> simp [paddedInteger, hb, hsign]
    · simp only [h, ↓reduceIte, checkInteger, List.isEmpty_cons, Bool.false_or]
      simp [paddedInteger, h]

/-! ### The authority key identifier of an issuer -/

/-- The issuer's names in an authority key identifier: directory names, each left as it is encoded. -/
def AuthorityKeyIdentifier.encodedNames : TaggedType (Option (List (List UInt8))) :=
  .sequence do
    let _ ← (octetString.implicit (.context 0)).optional
    let names? ← ((TaggedType.sequenceOf (TaggedType.explicit (.context 4) Schema.any).schema).implicit
      (.context 1)).optional
    let _ ← (integerOctets.implicit (.context 2)).optional
    return names?

namespace Issuer

/-- The fields of the authority key identifier that takes the place of the old one. -/
def successor (issuer : Issuer) (old : AuthorityKeyIdentifier) : AuthorityKeyIdentifier where
  keyIdentifier? := if old.keepsKey then some issuer.key.longIdentifier else none
  issuer? := if old.namesCertificate then some [.directory issuer.name.name] else none
  serial? := if old.namesCertificate then some (positiveContent issuer.serial.octets) else none

variable {issuer : Issuer} {old : AuthorityKeyIdentifier}

/-- The name of the issuer as the one general name. -/
def nameContent (issuer : Issuer) : List UInt8 :=
  constructed (.context 4) issuer.name.encoding

def keyField (issuer : Issuer) (old : AuthorityKeyIdentifier) : List UInt8 :=
  if old.keepsKey then primitive (.context 0) issuer.key.longIdentifier else []

def namesField (issuer : Issuer) (old : AuthorityKeyIdentifier) : List UInt8 :=
  if old.namesCertificate then constructed (.context 1) issuer.nameContent else []

def serialField (issuer : Issuer) (old : AuthorityKeyIdentifier) : List UInt8 :=
  if old.namesCertificate then primitive (.context 2) (positiveContent issuer.serial.octets) else []

/-- The content of the authority key identifier: three fields, each of which may be missing. -/
def fields (issuer : Issuer) (old : AuthorityKeyIdentifier) : List UInt8 :=
  issuer.keyField old ++ (issuer.namesField old ++ (issuer.serialField old ++ []))

private theorem authorityKeyIdentifier_eq (issuer : Issuer) (old : AuthorityKeyIdentifier) :
    issuer.authorityKeyIdentifier old = constructed .sequence (issuer.fields old) := by
  unfold authorityKeyIdentifier certificateFields fields keyField namesField serialField nameContent
  cases old.namesCertificate <;> simp

/-- Whether the fields are so short that the readers can count their bytes. -/
structure FieldsFit (issuer : Issuer) (old : AuthorityKeyIdentifier) : Prop where
  key : old.keepsKey → Element.Fits (.context 0) false issuer.key.longIdentifier
  names : old.namesCertificate → Element.Fits (.context 1) true issuer.nameContent
  serial : old.namesCertificate → Element.Fits (.context 2) false (positiveContent issuer.serial.octets)

private theorem fieldsFit_of_length (h : (issuer.fields old).length < wordLimit) : issuer.FieldsFit old := by
  unfold fields keyField namesField serialField primitive constructed at h
  rw [List.length_append, List.length_append, List.length_append] at h
  constructor
  · intro hpresent
    refine ⟨by decide, ?_⟩
    rw [hpresent, if_pos rfl] at h
    omega
  · intro hpresent
    refine ⟨by decide, ?_⟩
    rw [hpresent, if_pos rfl, if_pos rfl] at h
    omega
  · intro hpresent
    refine ⟨by decide, ?_⟩
    rw [hpresent, if_pos rfl, if_pos rfl] at h
    omega

/-- The three fields are read one after the other, with whatever type of names. -/
private theorem read_fields {ν β : Type} {names : TaggedType ν} {value : ν} (h : issuer.FieldsFit old)
    (hvalue : old.namesCertificate → names.decode (Element.make (.context 1) true issuer.nameContent) = .ok value)
    (next : Option (List UInt8) → Option ν → Option (List UInt8) → Fields β) :
    (do
      let key? ← (octetString.implicit (.context 0)).optional
      let names? ← (names.implicit (.context 1)).optional
      let serial? ← (integerOctets.implicit (.context 2)).optional
      next key? names? serial?) (issuer.fields old) =
    next (if old.keepsKey then some issuer.key.longIdentifier else none)
      (if old.namesCertificate then some value else none)
      (if old.namesCertificate then some (positiveContent issuer.serial.octets) else none) [] := by
  have hcheck : integerOctets.decode (Element.make (.context 2) false (positiveContent issuer.serial.octets)) =
      .ok (positiveContent issuer.serial.octets) := by
    rw [integerOctets, TaggedType.decode_ofContent, checkInteger_positiveContent]
    rfl
  -- a reader whose field is missing meets the tag of a later field, or the end
  have hlast : ∀ {α : Type} {t : TaggedType α}, Tag.context 2 ≠ t.tag →
      t.optional (issuer.serialField old ++ []) = .ok (none, issuer.serialField old ++ []) :=
    fun hne => TaggedType.optional_absent_written hne (by decide) TaggedType.optional_nil
  have hserial : (integerOctets.implicit (.context 2)).optional (issuer.serialField old ++ []) = .ok (_, []) :=
    TaggedType.optional_written h.serial (fun _ => hcheck) TaggedType.optional_nil
  have hnames : (names.implicit (.context 1)).optional
      (issuer.namesField old ++ (issuer.serialField old ++ [])) = .ok (_, issuer.serialField old ++ []) :=
    TaggedType.optional_written h.names hvalue (hlast (show Tag.context 2 ≠ .context 1 by decide))
  have hkey : (octetString.implicit (.context 0)).optional (issuer.fields old) =
      .ok (_, issuer.namesField old ++ (issuer.serialField old ++ [])) :=
    TaggedType.optional_written h.key (fun _ => rfl)
      (TaggedType.optional_absent_written (by decide) (by decide) (hlast (by decide)))
  rw [Reader.bind_of_ok hkey, Reader.bind_of_ok hnames, Reader.bind_of_ok hserial]
  rfl

/-! ### What is read of it -/

/-- The one name is what is read of its encoding. -/
private theorem decode_nameContent {α : Type} {s t : Schema α}
    (hs : s.decode? (.context 4) = some (TaggedType.explicit (.context 4) t).decode)
    (h : Element.Fits (.context 1) true issuer.nameContent) :
    (TaggedType.sequenceOf s).decode (Element.make (.context 1) true issuer.nameContent) =
      (t.whole issuer.name.encoding).map ([·]) := by
  have hfits : Element.Fits (.context 4) true issuer.name.encoding :=
    ⟨by decide, Nat.lt_trans (Element.length_content_lt (.context 1) true issuer.nameContent) h.length⟩
  have hread : ∀ item ∈ [issuer.name.encoding], ∀ rest,
      s.read (constructed (.context 4) item ++ rest) = .ofResult (t.whole item) rest := by
    intro item hitem rest
    obtain rfl := List.mem_singleton.mp hitem
    exact Schema.read_make hs hfits rest
  have hcontent : issuer.nameContent = [issuer.name.encoding].flatMap (constructed (.context 4)) :=
    (List.append_nil _).symm
  rw [hcontent, TaggedType.decode_sequenceOf hread, List.mapM_cons]
  cases t.whole issuer.name.encoding <;> rfl

/-- The fields of the authority key identifier are those that follow from the old one. -/
theorem whole_authorityKeyIdentifier (h : (issuer.authorityKeyIdentifier old).length < wordLimit) :
    AuthorityKeyIdentifier.taggedType.whole (issuer.authorityKeyIdentifier old) = .ok (issuer.successor old) := by
  rw [authorityKeyIdentifier_eq] at h ⊢
  have hfits : issuer.FieldsFit old :=
    fieldsFit_of_length (Nat.lt_trans (Element.length_content_lt .sequence true _) h)
  have hwhole : (Name.taggedType.map GeneralName.directory).schema.whole issuer.name.encoding =
      .ok (.directory issuer.name.name) := by
    have hmap := TaggedType.whole_map GeneralName.directory Name.taggedType issuer.name.encoding
    rw [issuer.name.reads] at hmap
    exact hmap
  have hnames : old.namesCertificate →
      GeneralName.listType.decode (Element.make (.context 1) true issuer.nameContent) =
        .ok [.directory issuer.name.name] := by
    intro hpresent
    refine (decode_nameContent rfl (hfits.names hpresent)).trans ?_
    rw [hwhole]
    rfl
  exact TaggedType.whole_sequence h (read_fields hfits hnames _)

/-- The name in the authority key identifier is the issuer's, byte for byte. -/
theorem whole_encodedNames (h : (issuer.authorityKeyIdentifier old).length < wordLimit) :
    AuthorityKeyIdentifier.encodedNames.whole (issuer.authorityKeyIdentifier old) =
      .ok (if old.namesCertificate then some [issuer.name.encoding] else none) := by
  rw [authorityKeyIdentifier_eq] at h ⊢
  have hfits : issuer.FieldsFit old :=
    fieldsFit_of_length (Nat.lt_trans (Element.length_content_lt .sequence true _) h)
  have hnames : old.namesCertificate →
      (TaggedType.sequenceOf (TaggedType.explicit (.context 4) Schema.any).schema).decode
        (Element.make (.context 1) true issuer.nameContent) = .ok [issuer.name.encoding] := by
    intro hpresent
    refine (decode_nameContent TaggedType.decode?_schema_self (hfits.names hpresent)).trans ?_
    rw [Schema.any_whole issuer.name.reads rfl]
    rfl
  exact TaggedType.whole_sequence h (read_fields hfits hnames _)

end Issuer

/-! ### Whole sets -/

namespace ExtensionSet

/-- What an update changes in a set, and what it leaves alone. -/
structure Renewal (subject : PublicKey) (issuer : Issuer) (set updated : ExtensionSet) : Prop where
  contains : ∀ identifier, updated.contains identifier = set.contains identifier
  isCritical : ∀ identifier, updated.isCritical identifier = set.isCritical identifier
  other : ∀ identifier, identifier ≠ "2.5.29.14" → identifier ≠ "2.5.29.35" →
    updated.value? identifier = set.value? identifier
  subject : set.contains "2.5.29.14" →
    updated.value? "2.5.29.14" = some (4 :: 22 :: 4 :: 20 :: Hash.sha1 subject.bits)
  authority : ∀ value, set.value? "2.5.29.35" = some value → ∃ old renewed octets new,
    Extension.readAuthorityKeyIdentifier value = .ok old ∧ updated.value? "2.5.29.35" = some renewed ∧
      octetString.whole renewed = .ok octets ∧ AuthorityKeyIdentifier.taggedType.whole octets = .ok new ∧
      new.keyIdentifier? = (if old.keyIdentifier?.isSome then some (Hash.sha1 issuer.key.bits) else none) ∧
      if old.keyIdentifier? = none ∨ old.serial?.isSome then
        new.issuer? = some [.directory issuer.name.name] ∧
          AuthorityKeyIdentifier.encodedNames.whole octets = .ok (some [issuer.name.encoding]) ∧
          new.serial? = some (unsignedContent issuer.serial.octets)
      else new.issuer? = none ∧ new.serial? = none

variable {set updated : ExtensionSet} {subject : PublicKey} {issuer : Issuer}

private theorem critical_of_update (h : set.update subject issuer = .ok updated) (identifier : String) :
    (updated.find? identifier).map (·.critical) = (set.find? identifier).map (·.critical) := by
  rcases find?_update h identifier with ⟨hset, hupdated⟩ | ⟨extension, renewal?, hset, -, hupdated⟩
  · rw [hset, hupdated]
  · rw [hset, hupdated]
    cases renewal? <;> rfl

private theorem primitive_octetString (content : List UInt8) (h : content.length < 128) :
    primitive .octetString content = 4 :: UInt8.ofNat content.length :: content := by
  simp only [primitive, Element.make, encodeLength, h, ↓reduceIte]
  rfl

private theorem subjectKeyIdentifier_eq (key : PublicKey) :
    primitive .octetString key.subjectKeyIdentifier = 4 :: 22 :: 4 :: 20 :: Hash.sha1 key.bits := by
  have hinner : key.subjectKeyIdentifier = 4 :: 20 :: Hash.sha1 key.bits := by
    have h := primitive_octetString (Hash.sha1 key.bits) (by rw [length_sha1]; decide)
    rw [length_sha1] at h
    exact h
  have hlength : (4 :: 20 :: Hash.sha1 key.bits).length = 22 := by
    rw [List.length_cons, List.length_cons, length_sha1]
  rw [hinner, primitive_octetString _ (by rw [hlength]; decide), hlength]
  rfl

theorem octetString_whole {content : List UInt8} (h : (primitive .octetString content).length < wordLimit) :
    octetString.whole (primitive .octetString content) = .ok content :=
  TaggedType.whole_make (t := octetString) ⟨by decide, h⟩

/-- An update that succeeds does all that it should, and nothing else. Its new value is taken to have fewer than 2 to
the 64 bytes, as a byte string in memory has. -/
theorem update_renews (h : set.update subject issuer = .ok updated)
    (hsize : ∀ value, updated.value? "2.5.29.35" = some value → value.length < wordLimit) :
    Renewal subject issuer set updated where
  contains identifier := by
    have hcritical := congrArg Option.isSome (critical_of_update h identifier)
    rw [Option.isSome_map, Option.isSome_map] at hcritical
    rw [contains_eq, contains_eq, hcritical]
  isCritical identifier := by
    have hcritical := congrArg (Option.any id) (critical_of_update h identifier)
    rw [Option.any_map, Option.any_map] at hcritical
    rw [isCritical_eq, isCritical_eq]
    exact hcritical
  other identifier hsubject hauthority := by
    rw [value?_eq, value?_eq, find?_update_other h hsubject hauthority]
  subject hcontains := by
    rw [contains_eq, Option.isSome_iff_exists] at hcontains
    obtain ⟨extension, hfind⟩ := hcontains
    have hupdated : updated.find? "2.5.29.14" = (set.find? "2.5.29.14").map _ := find?_update_subject h
    rw [← subjectKeyIdentifier_eq, value?_eq, hupdated, hfind]
    rfl
  authority value hvalue := by
    rw [value?_eq, Option.map_eq_some_iff] at hvalue
    obtain ⟨extension, hfind, rfl⟩ := hvalue
    obtain ⟨old, hread, hupdated⟩ := find?_update_authority h hfind
    have hvalue : updated.value? "2.5.29.35" = some (primitive .octetString (issuer.authorityKeyIdentifier old)) := by
      rw [value?_eq]
      exact congrArg (Option.map (·.value)) hupdated
    have hlength := hsize _ hvalue
    have hcontent := Nat.lt_trans (Element.length_content_lt .octetString false _) hlength
    -- the new content is read twice: once with its names decoded, once with their bytes
    refine ⟨old, _, _, _, hread, hvalue, octetString_whole hlength,
      Issuer.whole_authorityKeyIdentifier hcontent, rfl, ?_⟩
    have hnames : old.namesCertificate ↔ old.keyIdentifier? = none ∨ old.serial?.isSome := by
      rw [AuthorityKeyIdentifier.namesCertificate, Bool.or_eq_true, Option.isNone_iff_eq_none]
    rw [Issuer.whole_encodedNames hcontent, ← positiveContent_eq]
    unfold Issuer.successor
    by_cases hpresent : old.namesCertificate
    · simp only [hpresent, ↓reduceIte, if_pos (hnames.mp hpresent), and_self]
    · simp only [hpresent, if_neg (mt hnames.mpr hpresent), Bool.false_eq_true, ↓reduceIte, and_self]

/-- An issuer with a common name and a serial number with zeros in front and the top bit set. -/
def sampleIssuer : Issuer where
  name :=
    { encoding := [0x30, 0x0D, 0x31, 0x0B, 0x30, 0x09, 0x06, 0x03, 0x55, 0x04, 0x03, 0x0C, 0x02, 0x43, 0x41]
      name := ⟨[[⟨⟨[2, 5, 4, 3]⟩, [0x0C, 0x02, 0x43, 0x41]⟩]]⟩
      reads := by decide }
  serial := ⟨[0, 0, 0x80]⟩
  key := ⟨[5]⟩

/-- A malformed subject key identifier, and an authority key identifier with a key and a serial number. -/
def sampleSet : ExtensionSet :=
  empty.insertAll [⟨"2.5.29.14", true, [5, 0]⟩, ⟨"2.5.29.19", false, [4, 0]⟩,
    ⟨"2.5.29.35", true, [4, 8, 0x30, 6, 0x80, 1, 7, 0x82, 1, 9]⟩]

theorem update_renews_sample :
    let updated := (sampleSet.update ⟨[4]⟩ sampleIssuer).toOption.getD ∅
    sampleSet.update ⟨[4]⟩ sampleIssuer = .ok updated ∧
      (∀ value, updated.value? "2.5.29.35" = some value → value.length < wordLimit) ∧
      Renewal ⟨[4]⟩ sampleIssuer sampleSet updated := by
  intro updated
  have h : sampleSet.update ⟨[4]⟩ sampleIssuer = .ok updated := rfl
  have hall : (updated.value? "2.5.29.35").all (·.length < wordLimit) := by decide
  have hsize : ∀ value, updated.value? "2.5.29.35" = some value → value.length < wordLimit := by
    intro value hvalue
    rw [hvalue] at hall
    simpa using hall
  exact ⟨h, hsize, update_renews h hsize⟩

end ExtensionSet

end CertExtensions
