import CertExtensions.Proofs.Extension.NameLines
import CertExtensions.Proofs.Extension.Rendering
import CertExtensions.Proofs.GeneralName.Encoding

/-!
# Texts of admissions

An admission has optional parts on every level, most of them with the tag of their type. They can be told apart because
no part is followed by one that has its tag; in a naming authority the text behind the address is none of the narrow
strings that an address is. `Admission.lines` says line by line what is shown of an admission, and `admission_text` that
this is the text of each of its encodings.
-/

namespace CertExtensions

open Asn1 Reader

/-! ### Encodings -/

def NamingAuthority.encodings (authority : NamingAuthority) : Language UInt8 :=
  node .sequence (optionally (fun id => leaf .objectIdentifier (objectIdContents id)) authority.id? *
    (optionally (fun url => leaf .ia5String (asciiContents url)) authority.url? *
      optionally directoryTexts authority.text?))

namespace ProfessionInfo

def namingEncodings (authority : NamingAuthority) : Language UInt8 := node (.context 0) authority.encodings

def idsEncodings (ids : List ObjectId) : Language UInt8 :=
  node .sequence (each (fun id => leaf .objectIdentifier (objectIdContents id)) ids)

def encodings (info : ProfessionInfo) : Language UInt8 :=
  node .sequence (optionally namingEncodings info.naming? *
    (node .sequence (each texts info.items) *
      (optionally idsEncodings info.ids? *
        (optionally (fun number => leaf .printableString (printableContents number)) info.registration? *
          optionally (fun octets => leaf .octetString {octets}) info.additional?))))

end ProfessionInfo

namespace AdmissionEntry

def authorityEncodings (authority : GeneralName) : Language UInt8 := node (.context 0) authority.encodings

def namingEncodings (authority : NamingAuthority) : Language UInt8 := node (.context 1) authority.encodings

def encodings (entry : AdmissionEntry) : Language UInt8 :=
  node .sequence (optionally authorityEncodings entry.authority? *
    (optionally namingEncodings entry.naming? * node .sequence (each ProfessionInfo.encodings entry.professions)))

end AdmissionEntry

def Admission.encodings (admission : Admission) : Language UInt8 :=
  node .sequence (optionally GeneralName.encodings admission.authority? *
    node .sequence (each AdmissionEntry.encodings admission.entries))

/-! ### Reading -/

private theorem NamingAuthority.finds : NamingAuthority.taggedType.schema.Finds NamingAuthority.encodings := by
  refine TaggedType.finds_sequence fun authority content hcontent hlt => ?_
  obtain ⟨id, hid, rest, hrest, rfl⟩ := Language.mem_mul.mp hcontent
  obtain ⟨url, hurl, text, htext, rfl⟩ := Language.mem_mul.mp hrest
  simp only [List.length_append] at hlt
  have htextId : objectId.schema.Passes text := passes_directoryTexts (by decide) htext (by omega)
  have htextUrl : ia5String.schema.Passes text := passes_directoryTexts (by decide) htext (by omega)
  have hurlId := finds_ia5String.passes_optionally (TaggedType.apart rfl) hurl (by omega) htextId
  refine (bind_of_ok (finds_objectId.optional hid (by omega) hurlId)).trans ?_
  refine (bind_of_ok (finds_ia5String.optional hurl (by omega) htextUrl)).trans ?_
  exact bind_of_ok (finds_directoryTexts.optional_last htext (by omega))

private theorem ProfessionInfo.finds : ProfessionInfo.taggedType.schema.Finds ProfessionInfo.encodings := by
  refine TaggedType.finds_sequence fun info content hcontent hlt => ?_
  obtain ⟨naming, hnaming, _, hafterNaming, rfl⟩ := Language.mem_mul.mp hcontent
  obtain ⟨items, hitems, _, hafterItems, rfl⟩ := Language.mem_mul.mp hafterNaming
  obtain ⟨ids, hids, _, hafterIds, rfl⟩ := Language.mem_mul.mp hafterItems
  obtain ⟨registration, hregistration, additional, hadditional, rfl⟩ := Language.mem_mul.mp hafterIds
  simp only [List.length_append] at hlt
  have findsNaming :=
    TaggedType.finds_explicit (show (Tag.context 0).number < wordLimit by decide) NamingAuthority.finds
  have findsItems := TaggedType.finds_sequenceOf finds_anyString
  have findsIds := TaggedType.finds_sequenceOf finds_objectId
  have findsOctets : octetString.schema.Finds fun octets => leaf .octetString {octets} :=
    TaggedType.finds_ofContent (by decide) fun _ _ hcontent _ => congrArg Except.ok hcontent
  -- from the last part to the first, what follows a part is passed over by it
  have hregistrationPasses : printableString.schema.Passes additional :=
    findsOctets.passes_optionally_last (TaggedType.apart rfl) hadditional (by omega)
  have hidsPasses : (TaggedType.sequenceOf objectId.schema).schema.Passes (registration ++ additional) :=
    finds_printableString.passes_optionally (TaggedType.apart rfl) hregistration (by omega)
      (findsOctets.passes_optionally_last (TaggedType.apart rfl) hadditional (by omega))
  have hnamingPasses :
      (TaggedType.explicit (.context 0) NamingAuthority.taggedType.schema).schema.Passes
        (items ++ (ids ++ (registration ++ additional))) :=
    findsItems.passes (TaggedType.apart rfl) hitems (by omega) _
  refine (bind_of_ok (findsNaming.optional hnaming (by omega) hnamingPasses)).trans ?_
  refine (bind_of_ok (findsItems.required hitems (by omega) _)).trans ?_
  refine (bind_of_ok (findsIds.optional hids (by omega) hidsPasses)).trans ?_
  refine (bind_of_ok (finds_printableString.optional hregistration (by omega) hregistrationPasses)).trans ?_
  exact bind_of_ok (findsOctets.optional_last hadditional (by omega))

private theorem AdmissionEntry.finds : AdmissionEntry.taggedType.schema.Finds AdmissionEntry.encodings := by
  refine TaggedType.finds_sequence fun entry content hcontent hlt => ?_
  obtain ⟨authority, hauthority, _, hafterAuthority, rfl⟩ := Language.mem_mul.mp hcontent
  obtain ⟨naming, hnaming, professions, hprofessions, rfl⟩ := Language.mem_mul.mp hafterAuthority
  simp only [List.length_append] at hlt
  have findsAuthority := TaggedType.finds_explicit (show (Tag.context 0).number < wordLimit by decide) GeneralName.finds
  have findsNaming :=
    TaggedType.finds_explicit (show (Tag.context 1).number < wordLimit by decide) NamingAuthority.finds
  have findsProfessions := TaggedType.finds_sequenceOf ProfessionInfo.finds
  have hnamingPasses : (TaggedType.explicit (.context 1) NamingAuthority.taggedType.schema).schema.Passes professions :=
    findsProfessions.passes_last (TaggedType.apart rfl) hprofessions (by omega)
  have hauthorityPasses : (TaggedType.explicit (.context 0) GeneralName.schema).schema.Passes (naming ++ professions) :=
    findsNaming.passes_optionally (TaggedType.apart rfl) hnaming (by omega)
      (findsProfessions.passes_last (TaggedType.apart rfl) hprofessions (by omega))
  refine (bind_of_ok (findsAuthority.optional hauthority (by omega) hauthorityPasses)).trans ?_
  refine (bind_of_ok (findsNaming.optional hnaming (by omega) hnamingPasses)).trans ?_
  exact bind_of_ok (findsProfessions.required_last hprofessions (by omega))

private theorem Admission.finds : Admission.taggedType.schema.Finds Admission.encodings := by
  refine TaggedType.finds_sequence fun admission content hcontent hlt => ?_
  obtain ⟨authority, hauthority, entries, hentries, rfl⟩ := Language.mem_mul.mp hcontent
  rw [List.length_append] at hlt
  have findsEntries := TaggedType.finds_sequenceOf AdmissionEntry.finds
  -- the authority is a choice, and no name has the tag of a sequence
  have hpasses : GeneralName.schema.Passes entries :=
    findsEntries.passes_last (TaggedType.apart rfl) hentries (by omega)
  refine (bind_of_ok (GeneralName.finds.optional hauthority (by omega) hpasses)).trans ?_
  exact bind_of_ok (findsEntries.required_last hentries (by omega))

/-! ### Lines -/

/-- The lines of the parts of a naming authority that are there. -/
def NamingAuthority.lines (depth : Nat) (authority : NamingAuthority) : List (Nat × String) :=
  (authority.id?.toList.map fun id => (depth, "Naming Authority OID: " ++ id.dotted)) ++
  (authority.url?.toList.map fun url => (depth, "Naming Authority URL: " ++ url)) ++
  authority.text?.toList.map fun text => (depth, "Naming Authority Text: " ++ text)

def ProfessionInfo.lines (info : ProfessionInfo) : List (Nat × String) :=
  [(1, "Profession Info:")] ++
  info.naming?.toList.flatMap (NamingAuthority.lines 2) ++
  (info.items.map fun item => (2, "Profession Item: " ++ item)) ++
  ((info.ids?.getD []).map fun id => (2, "Profession OID: " ++ id.dotted)) ++
  (info.registration?.toList.map fun number => (2, "Registration Number: " ++ number)) ++
  info.additional?.toList.map fun octets => (2, "Add Profession Info: " ++ Hex.numeral octets)

/-- The line of an authority, if there is one. -/
def AdmissionEntry.authorityLines (linkUris : Bool) (depth : Nat) (authority? : Option GeneralName) :
    List (Nat × String) :=
  authority?.toList.map fun authority => (depth, "Admission Authority: " ++ authority.display linkUris)

def AdmissionEntry.lines (linkUris : Bool) (i : Nat) (entry : AdmissionEntry) : List (Nat × String) :=
  [(0, "Admission [" ++ toString (i + 1) ++ "]:")] ++
  authorityLines linkUris 1 entry.authority? ++
  entry.naming?.toList.flatMap (NamingAuthority.lines 1) ++
  entry.professions.flatMap ProfessionInfo.lines

/-- The lines of an admission: the authority if there is one, and then the numbered entries. -/
def Admission.lines (linkUris : Bool) (admission : Admission) : List (Nat × String) :=
  AdmissionEntry.authorityLines linkUris 0 admission.authority? ++
  (admission.entries.mapIdx (AdmissionEntry.lines linkUris)).flatten

private theorem NamingAuthority.contents_outline (linkUris : Bool) (depth : Nat) (authority : NamingAuthority) :
    (authority.outline depth).contents linkUris = authority.lines depth := by
  simp [NamingAuthority.outline, NamingAuthority.lines]

private theorem ProfessionInfo.contents_outline (linkUris : Bool) (info : ProfessionInfo) :
    info.outline.contents linkUris = info.lines := by
  obtain ⟨naming?, items, ids?, registration?, additional?⟩ := info
  cases naming? <;>
    simp [ProfessionInfo.outline, ProfessionInfo.lines, NamingAuthority.contents_outline, Function.comp_def]

private theorem contents_admissionAuthority (linkUris : Bool) (depth : Nat) (authority? : Option GeneralName) :
    (admissionAuthority depth authority?).contents linkUris =
      AdmissionEntry.authorityLines linkUris depth authority? := by
  cases authority? with
  | none => rfl
  | some name => simp [admissionAuthority, AdmissionEntry.authorityLines, GeneralName.display]

private theorem AdmissionEntry.contents_outline (linkUris : Bool) (i : Nat) (entry : AdmissionEntry) :
    (outline (i + 1) entry).contents linkUris = lines linkUris i entry := by
  obtain ⟨authority?, naming?, professions⟩ := entry
  cases naming? <;>
    simp [AdmissionEntry.outline, AdmissionEntry.lines, NamingAuthority.contents_outline, contents_admissionAuthority,
      ProfessionInfo.contents_outline]

private theorem Admission.contents_outline (linkUris : Bool) (admission : Admission) :
    admission.outline.contents linkUris = admission.lines linkUris := by
  simp [Admission.outline, Admission.lines, contents_admissionAuthority, AdmissionEntry.contents_outline]

/-! ### Texts -/

namespace Extension

/-- The text of an encoded admission has the lines of the admission and no others. -/
theorem admission_text {admission : Admission} {value : List UInt8}
    (hvalue : value ∈ leaf .octetString admission.encodings) (hlt : value.length < wordLimit) (critical : Bool)
    (style : LayoutStyle) :
    (⟨"1.3.36.8.3.3", critical, value⟩ : Extension).text style =
      .ok (indented style.indent (admission.lines style.linkUris)) := by
  have htype : (⟨"1.3.36.8.3.3", critical, value⟩ : Extension).type? = some .admission :=
    ExtensionType.ofIdentifier?_identifier .admission
  have htext := text_of_mem htype rfl Admission.finds hvalue hlt style
  rwa [Admission.contents_outline] at htext

theorem admission_text_twoEntries :
    let naming : NamingAuthority := ⟨some ⟨[1, 2, 3]⟩, some "c", some "d"⟩
    let full : ProfessionInfo := ⟨some ⟨none, none, none⟩, ["e", "f"], some [⟨[1, 2, 4]⟩], some "7", some [8]⟩
    let admission : Admission :=
      ⟨some (.dns "a"), [⟨some (.uri "b"), some naming, [full, ⟨none, [], none, none, none⟩]⟩, ⟨none, none, []⟩]⟩
    let value : List UInt8 := [4, 64, 48, 62, 130, 1, 97, 48, 57, 48, 51, 160, 3, 134, 1, 98, 161, 12, 48, 10, 6, 2, 42,
      3, 22, 1, 99, 19, 1, 100, 48, 30, 48, 24, 160, 2, 48, 0, 48, 6, 22, 1, 101, 22, 1, 102, 48, 4, 6, 2, 42, 4, 19, 1,
      55, 4, 1, 8, 48, 2, 48, 0, 48, 2, 48, 0]
    value ∈ leaf .octetString admission.encodings ∧ value.length < wordLimit ∧
      (⟨"1.3.36.8.3.3", true, value⟩ : Extension).text ⟨false, " "⟩ = .ok ("Admission Authority: DNS Name: a\n" ++
        "Admission [1]:\n Admission Authority: Uniform Resource Identifier: b\n Naming Authority OID: 1.2.3\n" ++
        " Naming Authority URL: c\n Naming Authority Text: d\n Profession Info:\n  Profession Item: e\n" ++
        "  Profession Item: f\n  Profession OID: 1.2.4\n  Registration Number: 7\n  Add Profession Info: 0x0008\n" ++
        " Profession Info:\nAdmission [2]:\n") := by
  intro naming full admission value
  have hascii : ∀ text ∈ ["a", "b", "c", "e", "f"], ∀ c ∈ text.toList, c.toNat < 128 := by simp
  have hcontent : ∀ text ∈ ["a", "b", "c"], characterBytes text ∈ asciiContents text :=
    fun text htext => ⟨hascii text (List.mem_append_left ["e", "f"] htext), rfl⟩
  have hid : ObjectId.decode [42, 3] = .ok ⟨[1, 2, 3]⟩ := rfl
  have hprofession : ObjectId.decode [42, 4] = .ok ⟨[1, 2, 4]⟩ := rfl
  have hprintable : characterBytes "d" ∈ printableContents "d" := ⟨by simp, rfl⟩
  have hnumber : characterBytes "7" ∈ printableContents "7" := ⟨by simp, rfl⟩
  have hoctets : [8] ∈ ({[8]} : Language UInt8) := rfl
  have hauthority : _ ∈ GeneralName.encodings (.dns "a") :=
    make_mem_leaf (hcontent "a" (by decide)) (by decide) (.context 2)
  have hentryAuthority : _ ∈ AdmissionEntry.authorityEncodings (.uri "b") :=
    make_mem_node (make_mem_leaf (hcontent "b" (by decide)) (by decide) (.context 6)) (by decide) (.context 0)
  have htext : _ ∈ directoryTexts "d" := .inl (.inr (make_mem_leaf hprintable (by decide) .printableString))
  have hnaming : _ ∈ naming.encodings := make_mem_node (Language.append_mem_mul (make_mem_objectId hid (by decide))
    (Language.append_mem_mul (make_mem_leaf (hcontent "c" (by decide)) (by decide) .ia5String) htext)) (by decide)
    .sequence
  have hnone : _ ∈ NamingAuthority.encodings ⟨none, none, none⟩ := make_mem_node (Language.append_mem_mul
    Language.nil_mem_one (Language.append_mem_mul Language.nil_mem_one Language.nil_mem_one)) (by decide) .sequence
  have hitems : _ ∈ each texts ["e", "f"] :=
    Language.append_mem_mul (make_mem_texts (hascii "e" (by decide)) (by decide))
      (Language.append_mem_mul (make_mem_texts (hascii "f" (by decide)) (by decide)) Language.nil_mem_one)
  have hids : _ ∈ ProfessionInfo.idsEncodings [⟨[1, 2, 4]⟩] := make_mem_node
    (Language.append_mem_mul (make_mem_objectId hprofession (by decide)) Language.nil_mem_one) (by decide) .sequence
  have hfull : _ ∈ full.encodings := make_mem_node
    (Language.append_mem_mul (make_mem_node hnone (by decide) (.context 0)) <|
      Language.append_mem_mul (make_mem_node hitems (by decide) .sequence) <| Language.append_mem_mul hids <|
      Language.append_mem_mul (make_mem_leaf hnumber (by decide) .printableString)
        (make_mem_leaf hoctets (by decide) .octetString)) (by decide) .sequence
  have hempty : _ ∈ ProfessionInfo.encodings ⟨none, [], none, none, none⟩ := make_mem_node
    (Language.append_mem_mul Language.nil_mem_one <|
      Language.append_mem_mul (make_mem_node Language.nil_mem_one (by decide) .sequence) <|
      Language.append_mem_mul Language.nil_mem_one <|
      Language.append_mem_mul Language.nil_mem_one Language.nil_mem_one) (by decide) .sequence
  have hprofessions : _ ∈ each ProfessionInfo.encodings [full, ⟨none, [], none, none, none⟩] :=
    Language.append_mem_mul hfull (Language.append_mem_mul hempty Language.nil_mem_one)
  have hfirst : _ ∈ AdmissionEntry.encodings ⟨some (.uri "b"), some naming, [full, ⟨none, [], none, none, none⟩]⟩ :=
    make_mem_node (Language.append_mem_mul hentryAuthority (Language.append_mem_mul
      (make_mem_node hnaming (by decide) (.context 1)) (make_mem_node hprofessions (by decide) .sequence))) (by decide)
      .sequence
  have hsecond : _ ∈ AdmissionEntry.encodings ⟨none, none, []⟩ := make_mem_node
    (Language.append_mem_mul Language.nil_mem_one (Language.append_mem_mul Language.nil_mem_one
      (make_mem_node Language.nil_mem_one (by decide) .sequence))) (by decide) .sequence
  have hentries := make_mem_node
    (Language.append_mem_mul hfirst <| Language.append_mem_mul hsecond Language.nil_mem_one) (by decide) .sequence
  have hvalue : value ∈ leaf .octetString admission.encodings := make_mem_leaf
    (make_mem_node (Language.append_mem_mul hauthority hentries) (by decide) .sequence) (by decide) .octetString
  have hlt : value.length < wordLimit := by decide
  exact ⟨hvalue, hlt, (admission_text hvalue hlt true ⟨false, " "⟩).trans (by decide +kernel)⟩

/-- An authority whose value has a tag number that does not fit a word is refused, and so is a registration number with
a question mark. -/
theorem admission_text_limits :
    let authority : List UInt8 := [4, 24, 48, 22, 160, 18, 6, 2, 42, 3, 160, 12, 159, 130, 128, 128, 128, 128, 128, 128,
      128, 128, 0, 0, 48, 0]
    let number : List UInt8 := [4, 15, 48, 13, 48, 11, 48, 9, 48, 7, 48, 5, 48, 0, 19, 1, 63]
    authority ∈ leaf .octetString (node .sequence (node (.context 0)
      (leaf .objectIdentifier (objectIdContents ⟨[1, 2, 3]⟩) * node (.context 0) (elementsOf (.context (2 ^ 64)))) *
        node .sequence 1)) ∧
    (⟨"1.3.36.8.3.3", false, authority⟩ : Extension).text {} = .error .integerOverflow ∧
    number ∈ leaf .octetString (node .sequence (node .sequence (node .sequence (node .sequence (node .sequence
      (node .sequence 1 * leaf .printableString {characterBytes "?"})))))) ∧
    (⟨"1.3.36.8.3.3", false, number⟩ : Extension).text {} = .error .invalid := by
  intro authority number
  have hid : ObjectId.decode [42, 3] = .ok ⟨[1, 2, 3]⟩ := rfl
  have hempty : [48, 0] ∈ node .sequence 1 := ⟨[], Language.nil_mem_one, [0], .short (by decide), rfl⟩
  have hother := make_mem_node (Language.append_mem_mul (make_mem_objectId hid (by decide))
    (make_mem_node unreadable_mem_elementsOf (by decide) (.context 0))) (by decide) (.context 0)
  have hauthority : authority ∈ leaf .octetString (node .sequence (node (.context 0)
      (leaf .objectIdentifier (objectIdContents ⟨[1, 2, 3]⟩) * node (.context 0) (elementsOf (.context (2 ^ 64)))) *
        node .sequence 1)) :=
    make_mem_leaf (make_mem_node (Language.append_mem_mul hother hempty) (by decide) .sequence) (by decide) .octetString
  have hmark : [63] ∈ ({characterBytes "?"} : Language UInt8) := rfl
  have hinfo := make_mem_node (Language.append_mem_mul hempty (make_mem_leaf hmark (by decide) .printableString))
    (by decide) .sequence
  have hnumber : number ∈ leaf .octetString (node .sequence (node .sequence (node .sequence (node .sequence
      (node .sequence (node .sequence 1 * leaf .printableString {characterBytes "?"})))))) :=
    make_mem_leaf (make_mem_node (make_mem_node (make_mem_node (make_mem_node hinfo (by decide) .sequence) (by decide)
      .sequence) (by decide) .sequence) (by decide) .sequence) (by decide) .octetString
  exact ⟨hauthority, rfl, hnumber, by decide⟩

end Extension

end CertExtensions
