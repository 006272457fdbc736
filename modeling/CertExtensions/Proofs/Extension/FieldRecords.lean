import CertExtensions.Proofs.Asn1.OptionalFields
import CertExtensions.Proofs.Extension.NumberedLists
import CertExtensions.Proofs.Extension.RecordLines

/-!
# Records with context tags

Six types of records have optional fields only, told apart by context tags (`FieldRecord.all`; one of them is shown by
two types of extensions). A value that is a record of well-formed fields, in any order and number, has a text just if
the tags rise, and the text has the lines of the record which has the listed fields and no other
(`Extension.fieldRecord_text`); otherwise what is left over is too much.
-/

open Computability

namespace CertExtensions

open Asn1 Outline

/-! ### Fields -/

namespace AuthorityKeyIdentifier

def fields : List (OptionalField AuthorityKeyIdentifier) :=
  [.plain 0 octetString (·.keyIdentifier?), .plain 1 GeneralName.listType (·.issuer?),
    .plain 2 integerOctets (·.serial?)]

private theorem hasFields : taggedType.HasFields fields := by
  refine ⟨by decide, _, rfl, .optional (by decide) fun _ => .optional (by decide) fun _ =>
    .optional (by decide) fun _ => .pure ?_⟩
  exact ⟨⟨⟨trivial, rfl⟩, rfl⟩, rfl⟩

end AuthorityKeyIdentifier

namespace DistributionPoint

def fields : List (OptionalField DistributionPoint) :=
  [.plain 0 (.explicit (.context 0) DistributionPointName.schema) (·.name?), .plain 1 bitString (·.reasons?),
    .plain 2 GeneralName.listType (·.issuer?)]

private theorem hasFields : taggedType.HasFields fields := by
  refine ⟨by decide, _, rfl, .optional (by decide) fun _ => .optional (by decide) fun _ =>
    .optional (by decide) fun _ => .pure ?_⟩
  exact ⟨⟨⟨trivial, rfl⟩, rfl⟩, rfl⟩

end DistributionPoint

namespace IssuingDistributionPoint

def fields : List (OptionalField IssuingDistributionPoint) :=
  [.plain 0 (.explicit (.context 0) DistributionPointName.schema) (·.name?), .flag 1 (·.userCertificates),
    .flag 2 (·.authorityCertificates), .plain 3 bitString (·.someReasons?), .flag 4 (·.indirect),
    .flag 5 (·.attributeCertificates)]

private theorem takes_flag {ρ : Type} {number : Nat} {get : ρ → Bool} {fields : List (OptionalField ρ)}
    {also : ρ → Prop}
    {next : Bool → Fields ρ} (hnumber : number < 31) (hlater : ∀ other ∈ fields, number < other.number)
    (h : ∀ value? : Option Bool,
      (next (value?.getD false)).Takes fields fun record => also record ∧ get record = value?.getD false) :
    Fields.Takes (flag number >>= next) (.flag number get hnumber :: fields) also := by
  have hbind : flag number >>= next =
      (boolean.implicit (.context number)).optional >>= fun value? => next (value?.getD false) := by
    rw [flag, bind_assoc]
    simp only [pure_bind]
  rw [hbind]
  exact .optional hlater h

private theorem hasFields : taggedType.HasFields fields := by
  refine ⟨by decide, _, rfl, .optional (by decide) fun _ => takes_flag (by decide) (by decide) fun _ =>
    takes_flag (by decide) (by decide) fun _ => .optional (by decide) fun _ =>
    takes_flag (by decide) (by decide) fun _ => takes_flag (by decide) (by decide) fun _ => .pure ?_⟩
  exact ⟨⟨⟨⟨⟨⟨trivial, rfl⟩, rfl⟩, rfl⟩, rfl⟩, rfl⟩, rfl⟩

end IssuingDistributionPoint

namespace NameConstraints

def fields : List (OptionalField NameConstraints) :=
  [.plain 0 (.sequenceOf Subtree.taggedType.schema) (·.permitted?),
    .plain 1 (.sequenceOf Subtree.taggedType.schema) (·.excluded?)]

private theorem hasFields : taggedType.HasFields fields := by
  refine ⟨by decide, _, rfl, .optional (by decide) fun _ => .optional (by decide) fun _ => .pure ?_⟩
  exact ⟨⟨trivial, rfl⟩, rfl⟩

end NameConstraints

namespace PolicyConstraints

def fields : List (OptionalField PolicyConstraints) :=
  [.plain 0 uint64 (·.requireExplicit?), .plain 1 uint64 (·.inhibitMapping?)]

private theorem hasFields : taggedType.HasFields fields := by
  refine ⟨by decide, _, rfl, .optional (by decide) fun _ => .optional (by decide) fun _ => .pure ?_⟩
  exact ⟨⟨trivial, rfl⟩, rfl⟩

end PolicyConstraints

namespace PrivateKeyUsagePeriod

def fields : List (OptionalField PrivateKeyUsagePeriod) :=
  [.plain 0 generalizedTime (·.notBefore?), .plain 1 generalizedTime (·.notAfter?)]

private theorem hasFields : taggedType.HasFields fields := by
  refine ⟨by decide, _, rfl, .optional (by decide) fun _ => .optional (by decide) fun _ => .pure ?_⟩
  exact ⟨⟨trivial, rfl⟩, rfl⟩

end PrivateKeyUsagePeriod

/-! ### Extensions -/

/-- A type of extensions that shows a record of optional fields, the lines of the record, and what the values of the
type are around its encodings. -/
structure FieldRecord where
  {ρ : Type}
  type : ExtensionType
  fields : List (OptionalField ρ)
  lines : Bool → ρ → List (Nat × String)
  around : Language UInt8 → Language UInt8 := id

namespace FieldRecord

/-- The records with context tags; a distribution point is shown as the only one of a list. -/
def all : List FieldRecord := [
  ⟨.authorityKeyIdentifier, AuthorityKeyIdentifier.fields, AuthorityKeyIdentifier.lines, id⟩,
  ⟨.crlDistributionPoints, DistributionPoint.fields, DistributionPoint.lines "CRL Distribution Point", node .sequence⟩,
  ⟨.freshestCrl, DistributionPoint.fields, DistributionPoint.lines "Freshest CRL Distribution Point",
    node .sequence⟩,
  ⟨.issuingDistributionPoint, IssuingDistributionPoint.fields, IssuingDistributionPoint.lines, id⟩,
  ⟨.nameConstraints, NameConstraints.fields, NameConstraints.lines, id⟩,
  ⟨.policyConstraints, PolicyConstraints.fields, fun _ => PolicyConstraints.lines, id⟩,
  ⟨.privateKeyUsagePeriod, PrivateKeyUsagePeriod.fields, fun _ => PrivateKeyUsagePeriod.lines, id⟩]

variable {r : FieldRecord} {t : TaggedType r.ρ} {outline : r.ρ → Outline}

/-- The type of the record that is in the octets of a value, and the outline that is shown of it. -/
structure Presents (r : FieldRecord) (t : TaggedType r.ρ) (outline : r.ρ → Outline) : Prop where
  hasFields : t.HasFields r.fields
  contents : ∀ linkUris record, (outline record).contents linkUris = r.lines linkUris record
  body : ∀ content, ∀ octets ∈ r.around (node .sequence {content}), octets.length < wordLimit →
    ∃ bytes ∈ node .sequence {content}, bytes.length < wordLimit ∧
      r.type.presentation.body octets = (t.whole bytes).map fun record => .outline (outline record)

private theorem presents_of_ofType (hfields : t.HasFields r.fields)
    (hcontents : ∀ linkUris record, (outline record).contents linkUris = r.lines linkUris record)
    (haround : r.around = id) (h : r.type.presentation = .ofType t outline) : r.Presents t outline := by
  refine ⟨hfields, hcontents, fun content octets hoctets hlt => ?_⟩
  rw [haround] at hoctets
  refine ⟨octets, hoctets, hlt, ?_⟩
  have hwhole : t.schema.whole octets = t.whole octets := rfl
  simp only [h, Presentation.ofType, Presentation.body, Schema.whole_map, hwhole]
  cases t.whole octets <;> rfl

private theorem presents_of_numbered {block : Nat → r.ρ → Outline} (hfields : t.HasFields r.fields)
    (hcontents : ∀ linkUris record, (block 1 record).contents linkUris = r.lines linkUris record)
    (haround : r.around = node .sequence)
    (h : r.type.presentation = .ofType (.sequenceOf t.schema) (numbered block)) : r.Presents t (block 1) := by
  refine ⟨hfields, hcontents, fun content octets hoctets hlt => ?_⟩
  rw [haround] at hoctets
  obtain ⟨bytes, hbytes, houter⟩ := mem_node.mp hoctets
  obtain ⟨content, rfl, hinner⟩ := mem_node.mp hbytes
  have hshort := Nat.lt_trans houter.length_content_lt hlt
  have hsingle : octets ∈ sequenceOfElements [bytes] := ⟨_, rfl, by simpa using houter⟩
  obtain ⟨-, reader, rfl, -⟩ := hfields
  refine ⟨bytes, hbytes, hshort, ?_⟩
  rw [h, Presentation.body_single (mem_anyElement hinner) hsingle hlt,
    TaggedType.alone_of_isElement (show Tag.sequence.number < wordLimit by decide) hinner hshort]

private theorem exists_presents (h : r ∈ all) : ∃ t outline, r.Presents t outline := by
  simp only [all, List.mem_cons, List.not_mem_nil, or_false] at h
  rcases h with rfl | rfl | rfl | rfl | rfl | rfl | rfl
  · exact ⟨_, _, presents_of_ofType AuthorityKeyIdentifier.hasFields AuthorityKeyIdentifier.contents_outline rfl rfl⟩
  · exact ⟨_, _, presents_of_numbered DistributionPoint.hasFields (DistributionPoint.contents_outline _) rfl rfl⟩
  · exact ⟨_, _, presents_of_numbered DistributionPoint.hasFields (DistributionPoint.contents_outline _) rfl rfl⟩
  · exact ⟨_, _, presents_of_ofType IssuingDistributionPoint.hasFields IssuingDistributionPoint.contents_outline rfl
      rfl⟩
  · exact ⟨_, _, presents_of_ofType NameConstraints.hasFields NameConstraints.contents_outline rfl rfl⟩
  · exact ⟨_, _, presents_of_ofType PolicyConstraints.hasFields PolicyConstraints.contents_outline rfl rfl⟩
  · exact ⟨_, _, presents_of_ofType PrivateKeyUsagePeriod.hasFields PrivateKeyUsagePeriod.contents_outline rfl rfl⟩

end FieldRecord

namespace Extension

/-- A record of well-formed fields with context tags has a text just if the tags rise. The text has the lines of the
record that has each listed field with its value, and all other fields as missing. Where the tags do not rise there is
more than the record takes. -/
theorem fieldRecord_text {r : FieldRecord} (hr : r ∈ FieldRecord.all) {items : List (Nat × List UInt8)}
    (hitems : ∀ item ∈ items, ∃ field ∈ r.fields, field.Reads item) {extension : Extension}
    (htype : extension.type? = some r.type)
    (hvalue : extension.value ∈ leaf .octetString (r.around (node .sequence {items.flatMap Prod.snd})))
    (hlt : extension.value.length < wordLimit) (style : LayoutStyle) :
    ((items.map Prod.fst).Pairwise (· < ·) →
      ∃ record, extension.text style = .ok (indented style.indent (r.lines style.linkUris record)) ∧
        ∀ field ∈ r.fields, field.get record = field.entry (field.value? items)) ∧
    (¬(items.map Prod.fst).Pairwise (· < ·) → extension.text style = .error .extra) := by
  obtain ⟨t, outline, hpresents⟩ := FieldRecord.exists_presents hr
  obtain ⟨octets, hmem, hshort, hoctets⟩ := octets_of_mem hvalue hlt
  obtain ⟨bytes, hbytes, hbound, hbody⟩ := hpresents.body _ octets hmem hshort
  obtain ⟨hrising, hnot⟩ := hpresents.hasFields.whole hitems hbytes hbound
  have htext : extension.text style =
      (t.whole bytes).map fun record => indented style.indent (r.lines style.linkUris record) := by
    rw [text_eq hoctets, presentation, htype]
    simp only [hbody, ← hpresents.contents, ← layOut_eq]
    cases t.whole bytes <;> rfl
  constructor
  · intro h
    obtain ⟨record, hwhole, hentries⟩ := hrising h
    exact ⟨record, by rw [htext, hwhole]; rfl, hentries⟩
  · intro h
    rw [htext, hnot h]
    rfl

theorem fieldRecord_text_keyAndSerial :
    let r : FieldRecord := ⟨.authorityKeyIdentifier, AuthorityKeyIdentifier.fields, AuthorityKeyIdentifier.lines, id⟩
    let key : Nat × List UInt8 := (0, [128, 1, 5])
    let serial : Nat × List UInt8 := (2, [130, 1, 7])
    let rising : Extension := ⟨"2.5.29.35", false, [4, 8, 48, 6] ++ (key.2 ++ serial.2)⟩
    let falling : Extension := ⟨"2.5.29.35", false, [4, 8, 48, 6] ++ (serial.2 ++ key.2)⟩
    r ∈ FieldRecord.all ∧ (∀ item ∈ [key, serial], ∃ field ∈ r.fields, field.Reads item) ∧
      rising.value ∈ leaf .octetString (node .sequence {[key, serial].flatMap Prod.snd}) ∧
      falling.value ∈ leaf .octetString (node .sequence {[serial, key].flatMap Prod.snd}) ∧
      rising.text {} = .ok "Key Identifier: 0x0005\nCertificate Serial Number: 0x0007\n" ∧
      falling.text {} = .error .extra := by
  intro r key serial rising falling
  have hr : r ∈ FieldRecord.all := List.mem_cons_self
  have hkey : ∃ field ∈ r.fields, field.Reads key := ⟨_, List.mem_cons_self, rfl, [5], rfl⟩
  have hserial : ∃ field ∈ r.fields, field.Reads serial :=
    ⟨_, List.mem_cons_of_mem _ (List.mem_cons_of_mem _ List.mem_cons_self), rfl, [7], rfl⟩
  have hmem : ∀ items : List (Nat × List UInt8), items.flatMap Prod.snd ∈ ({items.flatMap Prod.snd} : Language UInt8) :=
    fun _ => rfl
  have hrising : rising.value ∈ leaf .octetString (node .sequence {[key, serial].flatMap Prod.snd}) :=
    make_mem_leaf (make_mem_node (hmem [key, serial]) (by decide) .sequence) (by decide) .octetString
  have hfalling : falling.value ∈ leaf .octetString (node .sequence {[serial, key].flatMap Prod.snd}) :=
    make_mem_leaf (make_mem_node (hmem [serial, key]) (by decide) .sequence) (by decide) .octetString
  have hitems : ∀ item ∈ [key, serial], ∃ field ∈ r.fields, field.Reads item := by
    simp only [List.forall_mem_cons, List.not_mem_nil, false_imp_iff, implies_true, and_true]
    exact ⟨hkey, hserial⟩
  have hreversed : ∀ item ∈ [serial, key], ∃ field ∈ r.fields, field.Reads item :=
    fun item hitem => hitems item (List.mem_reverse.mp hitem)
  have hinOrder := fieldRecord_text hr hitems (show rising.type? = some r.type from rfl) hrising (by decide) {}
  have hbackwards := fieldRecord_text hr hreversed (show falling.type? = some r.type from rfl) hfalling (by decide) {}
  refine ⟨hr, hitems, hrising, hfalling, ?_, hbackwards.2 (by decide)⟩
  obtain ⟨⟨key?, issuer?, serial?⟩, htext, hentries⟩ := hinOrder.1 (by decide)
  simp only [r, AuthorityKeyIdentifier.fields, List.forall_mem_cons] at hentries
  obtain ⟨hkeyEntry, hissuerEntry, hserialEntry, -⟩ := hentries
  obtain rfl : key? = some [5] := hkeyEntry
  obtain rfl : issuer? = none := hissuerEntry
  obtain rfl : serial? = some [7] := hserialEntry
  have hlines : indented "    " (AuthorityKeyIdentifier.lines false ⟨some [5], none, some [7]⟩) =
      "Key Identifier: 0x0005\nCertificate Serial Number: 0x0007\n" := rfl
  exact htext.trans (congrArg Except.ok hlines)

end Extension

end CertExtensions
