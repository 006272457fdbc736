import CertExtensions.Proofs.Asn1.CharacterString
import CertExtensions.Proofs.Asn1.NamedBits
import CertExtensions.Proofs.Extension.Rendering
import CertExtensions.Proofs.Text.Lines
import Mathlib.Data.List.Sublists

/-!
# Texts of named bits

Bit strings whose bits have names stand at five places (`BitsPlace`): as values of their own, beside the version of an
issuer's software, and as reasons in the two kinds of distribution points. What is around a bit string is shown in front
of its names and behind them and does not depend on its bits (`BitsPlace.text_of_decodeBits`), and the names can be read
off their lines again (`BitsPlace.names_eq_of_shown`). So a text tells which of the bits with a name are set, and
nothing else of the bit string (`Extension.namedBits_text`).
-/

namespace CertExtensions

open Asn1 Outline

/-! ### Places -/

/-- Where a bit string with named bits stands, and what is read around it. -/
inductive BitsPlace where
  | keyUsage
  | netscapeCertificateType
  | entrustVersion (version : String)
  /-- the reasons of one of the distribution points of a list -/
  | distributionPoint (freshest : Bool) (front : List DistributionPoint) (name? : Option DistributionPointName)
    (issuer? : Option (List GeneralName)) (back : List DistributionPoint)
  | issuingDistributionPoint (name? : Option DistributionPointName)
    (userCertificates authorityCertificates indirect attributeCertificates : Option Bool)

namespace BitsPlace

def type : BitsPlace → ExtensionType
  | keyUsage => .keyUsage
  | netscapeCertificateType => .netscapeCertificateType
  | entrustVersion _ => .entrustVersionInformation
  | distributionPoint freshest .. => if freshest then .freshestCrl else .crlDistributionPoints
  | issuingDistributionPoint .. => .issuingDistributionPoint

def names : BitsPlace → List String
  | keyUsage => KeyUsage.names
  | netscapeCertificateType => NetscapeCertificateType.names
  | entrustVersion _ => EntrustVersion.flagNames
  | distributionPoint .. | issuingDistributionPoint .. => ReasonFlags.names

/-- The name of a distribution point as a field of a record. -/
def nameType : TaggedType DistributionPointName :=
  .explicit (.context 0) DistributionPointName.schema

/-- The values around the content of a bit string. -/
def around (content : List UInt8) : BitsPlace → Language UInt8
  | keyUsage | netscapeCertificateType => leaf .bitString {content}
  | entrustVersion version => node .sequence (texts version * leaf .bitString {content})
  | distributionPoint _ front name? issuer? back =>
    node .sequence (each DistributionPoint.taggedType.elements front *
      (node .sequence (optionally nameType.elements name? * (leaf (.context 1) {content} *
          optionally (GeneralName.listType.implicit (.context 2)).elements issuer?)) *
        each DistributionPoint.taggedType.elements back))
  | issuingDistributionPoint name? userCertificates authorityCertificates indirect attributeCertificates =>
    node .sequence (optionally nameType.elements name? *
      (optionally (boolean.implicit (.context 1)).elements userCertificates *
        (optionally (boolean.implicit (.context 2)).elements authorityCertificates * (leaf (.context 3) {content} *
          (optionally (boolean.implicit (.context 4)).elements indirect *
            optionally (boolean.implicit (.context 5)).elements attributeCertificates)))))

/-- The encodings of bits at the place. -/
def encodings (place : BitsPlace) (bits : List Bool) : Language UInt8 :=
  ⨆ content ∈ bitContents bits, place.around content

/-! ### Lines -/

def title (freshest : Bool) : String :=
  if freshest then "Freshest CRL Distribution Point" else "CRL Distribution Point"

def nameOutline (depth : Nat) (name? : Option DistributionPointName) : Outline :=
  name?.elim [] (·.outline depth)

/-- What is shown in front of the names. -/
def before : BitsPlace → Outline
  | keyUsage | netscapeCertificateType => []
  | entrustVersion version => line 0 ("Version: " ++ version)
  | distributionPoint freshest front name? _ _ =>
    numbered (DistributionPoint.outline (title freshest)) front ++
    line 0 (title freshest ++ " [" ++ toString (front.length + 1) ++ "]:") ++
    nameOutline 1 name?
  | issuingDistributionPoint name? userCertificates authorityCertificates _ _ =>
    nameOutline 0 name? ++
    line 0 ("Only Contains User Certificates: " ++ toString (userCertificates.getD false)) ++
    line 0 ("Only Contains CA Certificates: " ++ toString (authorityCertificates.getD false))

/-- The depths and contents of the lines with the names: a line each, or all of them on one line. -/
def shown (place : BitsPlace) (names : List String) : List (Nat × String) :=
  match place with
  | keyUsage | netscapeCertificateType => names.map fun name => (0, name)
  | entrustVersion _ => [(0, "Information Flags: " ++ ", ".intercalate names)]
  | distributionPoint .. => (1, "Reasons:") :: names.map fun name => (2, name)
  | issuingDistributionPoint .. => (0, "Only Some Reasons:") :: names.map fun name => (1, name)

/-- What is shown behind the names. -/
def after : BitsPlace → Outline
  | keyUsage | netscapeCertificateType | entrustVersion _ => []
  | distributionPoint freshest front _ issuer? back =>
    issuer?.elim [] (fun names => line 1 "CRL Issuer:" ++ GeneralName.outline 2 names) ++
    (back.zipIdx (front.length + 2)).flatMap fun (point, number) =>
      DistributionPoint.outline (title freshest) number point
  | issuingDistributionPoint _ _ _ indirect attributeCertificates =>
    line 0 ("Indirect CRL: " ++ toString (indirect.getD false)) ++
    line 0 ("Only Contains Attribute Certificates: " ++ toString (attributeCertificates.getD false))

/-- All lines, with these names shown. -/
def contents (place : BitsPlace) (linkUris : Bool) (names : List String) : List (Nat × String) :=
  place.before.contents linkUris ++ (place.shown names ++ place.after.contents linkUris)

/-! ### Reading -/

variable {content bytes : List UInt8} {bits : Bits}

private theorem mem_elements_bitString {tag : Tag} (hcontent : decodeBits content = .ok bits)
    (hbytes : bytes ∈ leaf tag {content}) : bytes ∈ (bitString.implicit tag).elements bits := by
  obtain ⟨content, rfl, helement⟩ := mem_leaf.mp hbytes
  exact TaggedType.isEncoding_ofContent_iff.mpr ⟨content, helement, hcontent⟩

private theorem mem_elements_entrustVersion {version : String} (hcontent : decodeBits content = .ok bits)
    (hbytes : bytes ∈ (entrustVersion version).around content) (hlt : bytes.length < wordLimit) :
    bytes ∈ EntrustVersion.taggedType.elements ⟨version, bits⟩ := by
  refine TaggedType.mem_elements_sequence hbytes hlt fun fields hfields hshort => ?_
  obtain ⟨text, htext, flags, hflags, rfl⟩ := Language.mem_mul.mp hfields
  rw [List.length_append] at hshort
  have hflags : flags ∈ bitString.elements bits := mem_elements_bitString hcontent hflags
  refine (Reader.bind_of_ok (finds_anyString.required htext (by omega) flags)).trans ?_
  exact Reader.bind_of_ok ((TaggedType.finds_elements (by decide)).required_last hflags (by omega))

private theorem mem_elements_distributionPoint {name? : Option DistributionPointName}
    {issuer? : Option (List GeneralName)} (hcontent : decodeBits content = .ok bits) (hlt : bytes.length < wordLimit)
    (hbytes : bytes ∈ node .sequence (optionally nameType.elements name? * (leaf (.context 1) {content} *
      optionally (GeneralName.listType.implicit (.context 2)).elements issuer?))) :
    bytes ∈ DistributionPoint.taggedType.elements ⟨name?, some bits, issuer?⟩ := by
  refine TaggedType.mem_elements_sequence hbytes hlt fun fields hfields hshort => ?_
  obtain ⟨name, hname, rest, hrest, rfl⟩ := Language.mem_mul.mp hfields
  obtain ⟨reasons, hreasons, issuer, hissuer, rfl⟩ := Language.mem_mul.mp hrest
  rw [List.length_append, List.length_append] at hshort
  have hreasons : reasons ∈ optionally (bitString.implicit (.context 1)).elements (some bits) :=
    mem_elements_bitString hcontent hreasons
  have hnameFinds := TaggedType.finds_elements (t := nameType) (by decide)
  have hbitsFinds := TaggedType.finds_elements (t := bitString.implicit (.context 1)) (by decide)
  have hissuerFinds := TaggedType.finds_elements (t := GeneralName.listType.implicit (.context 2)) (by decide)
  have hrest : nameType.schema.Passes (reasons ++ issuer) :=
    hbitsFinds.passes (TaggedType.apart rfl) hreasons (by omega) issuer
  have hafter : (bitString.implicit (.context 1)).schema.Passes issuer :=
    hissuerFinds.passes_optionally_last (TaggedType.apart rfl) hissuer (by omega)
  refine (Reader.bind_of_ok (hnameFinds.optional hname (by omega) hrest)).trans ?_
  refine (Reader.bind_of_ok (hbitsFinds.optional hreasons (by omega) hafter)).trans ?_
  exact Reader.bind_of_ok (hissuerFinds.optional_last hissuer (by omega))

private theorem flag_of_mem {number : Nat} {flag? : Option Bool} {front rest : List UInt8}
    (hnumber : number < wordLimit)
    (hfront : front ∈ optionally (boolean.implicit (.context number)).elements flag?) (hlt : front.length < wordLimit)
    (hrest : (boolean.implicit (.context number)).schema.Passes rest) :
    IssuingDistributionPoint.flag number (front ++ rest) = .ok (flag?.getD false, rest) :=
  Reader.bind_of_ok ((TaggedType.finds_elements hnumber).optional hfront hlt hrest)

private theorem mem_elements_issuingDistributionPoint {name? : Option DistributionPointName}
    {userCertificates authorityCertificates indirect attributeCertificates : Option Bool}
    (hcontent : decodeBits content = .ok bits) (hlt : bytes.length < wordLimit)
    (hbytes : bytes ∈ (issuingDistributionPoint name? userCertificates authorityCertificates indirect
      attributeCertificates).around content) :
    bytes ∈ IssuingDistributionPoint.taggedType.elements ⟨name?, userCertificates.getD false,
      authorityCertificates.getD false, some bits, indirect.getD false, attributeCertificates.getD false⟩ := by
  refine TaggedType.mem_elements_sequence hbytes hlt fun fields hfields hshort => ?_
  obtain ⟨name, hname, _, hbehindName, rfl⟩ := Language.mem_mul.mp hfields
  obtain ⟨user, huser, _, hbehindUser, rfl⟩ := Language.mem_mul.mp hbehindName
  obtain ⟨authority, hauthority, _, hbehindAuthority, rfl⟩ := Language.mem_mul.mp hbehindUser
  obtain ⟨reasons, hreasons, _, hbehindReasons, rfl⟩ := Language.mem_mul.mp hbehindAuthority
  obtain ⟨indirection, hindirection, attributes, hattributes, rfl⟩ := Language.mem_mul.mp hbehindReasons
  simp only [List.length_append] at hshort
  have hreasons : reasons ∈ optionally (bitString.implicit (.context 3)).elements (some bits) :=
    mem_elements_bitString hcontent hreasons
  have hnameFinds := TaggedType.finds_elements (t := nameType) (by decide)
  have hbitsFinds := TaggedType.finds_elements (t := bitString.implicit (.context 3)) (by decide)
  have hflagFinds : ∀ {number}, number < wordLimit → (boolean.implicit (.context number)).schema.Finds
      (boolean.implicit (.context number)).elements := fun h => TaggedType.finds_elements h
  -- a field with another tag is passed over at the reasons and at what may be in front of them
  have hpassReasons : ∀ {α : Type} {t : TaggedType α}, t.schema.decode? (.context 3) = none →
      t.schema.Passes (reasons ++ (indirection ++ attributes)) :=
    fun h => hbitsFinds.passes (TaggedType.apart h) hreasons (by omega) _
  have hpassAuthority : ∀ {α : Type} {t : TaggedType α}, t.schema.decode? (.context 2) = none →
      t.schema.decode? (.context 3) = none → t.schema.Passes (authority ++ (reasons ++ (indirection ++ attributes))) :=
    fun h hreasons => (hflagFinds (by decide)).passes_optionally (TaggedType.apart h) hauthority (by omega)
      (hpassReasons hreasons)
  have hpassUser : nameType.schema.Passes (user ++ (authority ++ (reasons ++ (indirection ++ attributes)))) :=
    (hflagFinds (by decide)).passes_optionally (TaggedType.apart rfl) huser (by omega) (hpassAuthority rfl rfl)
  have hpassAttributes : ∀ {α : Type} {t : TaggedType α}, t.schema.decode? (.context 5) = none →
      t.schema.Passes attributes :=
    fun h => (hflagFinds (by decide)).passes_optionally_last (TaggedType.apart h) hattributes (by omega)
  have hpassIndirection : (bitString.implicit (.context 3)).schema.Passes (indirection ++ attributes) :=
    (hflagFinds (by decide)).passes_optionally (TaggedType.apart rfl) hindirection (by omega) (hpassAttributes rfl)
  refine (Reader.bind_of_ok (hnameFinds.optional hname (by omega) hpassUser)).trans ?_
  refine (Reader.bind_of_ok (flag_of_mem (by decide) huser (by omega) (hpassAuthority rfl rfl))).trans ?_
  refine (Reader.bind_of_ok (flag_of_mem (by decide) hauthority (by omega) (hpassReasons rfl))).trans ?_
  refine (Reader.bind_of_ok (hbitsFinds.optional hreasons (by omega) hpassIndirection)).trans ?_
  refine (Reader.bind_of_ok (flag_of_mem (by decide) hindirection (by omega) (hpassAttributes rfl))).trans ?_
  have hlast := flag_of_mem (by decide) hattributes (by omega) Schema.passes_nil
  rw [List.append_nil] at hlast
  exact Reader.bind_of_ok hlast

private theorem mem_elements_distributionPoints {freshest : Bool} {front back : List DistributionPoint}
    {name? : Option DistributionPointName} {issuer? : Option (List GeneralName)}
    (hcontent : decodeBits content = .ok bits) (hlt : bytes.length < wordLimit)
    (hbytes : bytes ∈ (distributionPoint freshest front name? issuer? back).around content) :
    bytes ∈ DistributionPoint.listType.elements (front ++ ⟨name?, some bits, issuer?⟩ :: back) := by
  refine TaggedType.mem_elements_sequence hbytes hlt fun points hpoints hshort => ?_
  obtain ⟨some, hfront, rest, hrest, rfl⟩ := Language.mem_mul.mp hpoints
  obtain ⟨point, hpoint, more, hback, rfl⟩ := Language.mem_mul.mp hrest
  rw [List.length_append, List.length_append] at hshort
  have hpoint := mem_elements_distributionPoint hcontent (by omega) hpoint
  refine (TaggedType.finds_elements (t := DistributionPoint.taggedType) (by decide)).many ?_ (by simp; omega)
  rw [each_append, each_cons]
  exact Language.append_mem_mul hfront (Language.append_mem_mul hpoint hback)

/-! ### Texts -/

variable {place : BitsPlace} {extension : Extension}

private theorem text_of_elements {α : Type} {t : TaggedType α} {outline : α → Outline} {value : α} {octets : List UInt8}
    (htype : extension.type? = some place.type) (hpresentation : place.type.presentation = .ofType t outline)
    (hnumber : t.tag.number < wordLimit) (hoctets : octetString.whole extension.value = .ok octets)
    (hmem : octets ∈ t.elements value) (hlt : extension.value.length < wordLimit) (style : LayoutStyle) :
    extension.text style = .ok (indented style.indent ((outline value).contents style.linkUris)) :=
  Extension.text_of_mem htype hpresentation (TaggedType.finds_elements hnumber)
    (Extension.mem_of_octets hoctets hmem) hlt style

/-- What is shown of the bits at a place is the names of those that are set. -/
theorem text_of_decodeBits (hcontent : decodeBits content = .ok bits) (htype : extension.type? = some place.type)
    (hvalue : extension.value ∈ leaf .octetString (place.around content)) (hlt : extension.value.length < wordLimit)
    (style : LayoutStyle) :
    extension.text style =
      .ok (indented style.indent (place.contents style.linkUris (bits.named place.names))) := by
  obtain ⟨octets, haround, hshort, hoctets⟩ := Extension.octets_of_mem hvalue hlt
  cases place with
  | keyUsage =>
    have hmem : octets ∈ bitString.elements bits := mem_elements_bitString hcontent haround
    rw [text_of_elements htype rfl (by decide) hoctets hmem hlt style]
    simp [contents, before, shown, after, names, KeyUsage.outline, namedBitsOutline]
  | netscapeCertificateType =>
    have hmem : octets ∈ bitString.elements bits := mem_elements_bitString hcontent haround
    rw [text_of_elements htype rfl (by decide) hoctets hmem hlt style]
    simp [contents, before, shown, after, names, NetscapeCertificateType.outline, namedBitsOutline]
  | entrustVersion version =>
    have hmem := mem_elements_entrustVersion hcontent haround hshort
    rw [text_of_elements htype rfl (by decide) hoctets hmem hlt style]
    simp [contents, before, shown, after, names, EntrustVersion.outline]
  | distributionPoint freshest front name? issuer? back =>
    have hmem := mem_elements_distributionPoints hcontent hshort haround
    have hpresentation : (distributionPoint freshest front name? issuer? back).type.presentation =
        .ofType DistributionPoint.listType (DistributionPoint.listOutline (title freshest)) := by
      cases freshest <;> rfl
    rw [text_of_elements htype hpresentation (by decide) hoctets hmem hlt style, DistributionPoint.listOutline,
      numbered_append_cons]
    cases name? <;> cases issuer? <;>
      simp [contents, before, shown, after, names, DistributionPoint.outline, nameOutline]
  | issuingDistributionPoint name? userCertificates authorityCertificates indirect attributeCertificates =>
    have hmem := mem_elements_issuingDistributionPoint hcontent hshort haround
    rw [text_of_elements htype rfl (by decide) hoctets hmem hlt style]
    cases name? <;> simp [contents, before, shown, after, names, IssuingDistributionPoint.outline, nameOutline]

/-! ### Reading names off lines -/

variable {indent : String} {names others : List String}

/-- Names without line feeds on lines of one depth are told apart, whatever the indent is. -/
private theorem names_eq_of_indented {depth : Nat} (hnames : ∀ name ∈ names, '\n' ∉ name.toList)
    (hothers : ∀ name ∈ others, '\n' ∉ name.toList)
    (h : indented indent (names.map fun name => (depth, name)) =
      indented indent (others.map fun name => (depth, name))) : names = others := by
  induction names generalizing others with
  | nil =>
    cases others with
    | nil => rfl
    | cons other others =>
      have hlist := congrArg String.toList h
      rw [List.map_cons, toList_indented_cons] at hlist
      simp [indented] at hlist
  | cons name names ih =>
    cases others with
    | nil =>
      have hlist := congrArg String.toList h
      rw [List.map_cons, toList_indented_cons] at hlist
      simp [indented] at hlist
    | cons other others =>
      rw [List.forall_mem_cons] at hnames hothers
      have hlist := congrArg String.toList h
      rw [List.map_cons, List.map_cons, toList_indented_cons, toList_indented_cons] at hlist
      obtain ⟨hname, hrest⟩ := Text.append_separator_inj hnames.1 hothers.1 (List.append_cancel_left hlist)
      rw [String.toList_inj.mp hname, ih hnames.2 hothers.2 (String.toList_inj.mp hrest)]

/-- The flags on one line are told apart by the commas between them. -/
private theorem flags_eq_of_intercalate (hnames : names.Sublist EntrustVersion.flagNames)
    (hothers : others.Sublist EntrustVersion.flagNames) (h : ", ".intercalate names = ", ".intercalate others) :
    names = others := by
  have hall : ∀ names ∈ EntrustVersion.flagNames.sublists, ∀ others ∈ EntrustVersion.flagNames.sublists,
      ", ".intercalate names = ", ".intercalate others → names = others := by decide
  exact hall names (List.mem_sublists.mpr hnames) others (List.mem_sublists.mpr hothers) h

private theorem names_distinct (place : BitsPlace) : place.names.Nodup ∧ ∀ name ∈ place.names, '\n' ∉ name.toList := by
  have hall : ∀ names ∈ [KeyUsage.names, NetscapeCertificateType.names, EntrustVersion.flagNames, ReasonFlags.names],
      names.Nodup ∧ ∀ name ∈ names, '\n' ∉ name.toList := by decide
  refine hall place.names ?_
  cases place <;> simp [BitsPlace.names]

theorem names_eq_of_shown {place : BitsPlace} (hnames : names.Sublist place.names)
    (hothers : others.Sublist place.names)
    (h : indented indent (place.shown names) = indented indent (place.shown others)) : names = others := by
  have hfeed : ∀ name ∈ names, '\n' ∉ name.toList := fun name hname => place.names_distinct.2 name (hnames.subset hname)
  have hfeedOthers : ∀ name ∈ others, '\n' ∉ name.toList :=
    fun name hname => place.names_distinct.2 name (hothers.subset hname)
  cases place with
  | keyUsage | netscapeCertificateType => exact names_eq_of_indented hfeed hfeedOthers h
  | entrustVersion version =>
    refine flags_eq_of_intercalate hnames hothers ?_
    simpa [shown, indented] using h
  | distributionPoint | issuingDistributionPoint =>
    have hlist := congrArg String.toList h
    rw [shown, shown, toList_indented_cons, toList_indented_cons, List.append_cancel_left_eq,
      List.append_cancel_left_eq, List.cons_inj_right, String.toList_inj] at hlist
    exact names_eq_of_indented hfeed hfeedOthers hlist

private theorem mem_encodings {bits : List Bool} :
    bytes ∈ place.encodings bits ↔ ∃ content ∈ bitContents bits, bytes ∈ place.around content := by
  simp only [encodings, Language.mem_iSup, exists_prop]

private theorem text_of_mem_encodings {bits : List Bool} (htype : extension.type? = some place.type)
    (hvalue : extension.value ∈ leaf .octetString (place.encodings bits)) (hlt : extension.value.length < wordLimit)
    (style : LayoutStyle) :
    extension.text style =
      .ok (indented style.indent (place.contents style.linkUris (setNames place.names bits))) := by
  obtain ⟨octets, hoctets, helement⟩ := mem_leaf.mp hvalue
  obtain ⟨content, hcontent, haround⟩ := mem_encodings.mp hoctets
  obtain ⟨found, hfound, hnamed⟩ := named_of_mem hcontent
  rw [← hnamed]
  exact text_of_decodeBits hfound htype (mem_leaf.mpr ⟨octets, haround, helement⟩) hlt style

end BitsPlace

namespace Extension

/-- Of named bits the names of those that are set are shown, each once and in the order of the bits, among lines that
do not depend on the bits. Two bit strings at the same place have the same text just if no bit with a name is set in one
of them only; so zeros at the end do not matter. This is said of all bit strings that are read. -/
theorem namedBits_text {place : BitsPlace} {bits : List Bool} {extension : Extension}
    (htype : extension.type? = some place.type) (hvalue : extension.value ∈ leaf .octetString (place.encodings bits))
    (hlt : extension.value.length < wordLimit) (style : LayoutStyle) :
    extension.text style =
      .ok (indented style.indent (place.contents style.linkUris (setNames place.names bits))) ∧
    (setNames place.names bits).Sublist place.names ∧ (setNames place.names bits).Nodup ∧
    (∀ (i : Nat) name, place.names[i]? = some name →
      (name ∈ setNames place.names bits ↔ bits[i]? = some true)) ∧
    (∀ (other : Extension) otherBits, other.type? = some place.type →
      other.value ∈ leaf .octetString (place.encodings otherBits) → other.value.length < wordLimit →
      (other.text style = extension.text style ↔
        ∀ i < place.names.length, otherBits[i]? = some true ↔ bits[i]? = some true) ∧
      ∀ n, otherBits = bits ++ List.replicate n false → other.text style = extension.text style) ∧
    ∀ content, (∃ found, decodeBits content = .ok found) ↔ ∃ bits, content ∈ bitContents bits := by
  have hsublist := setNames_sublist place.names bits
  have hnodup := place.names_distinct.1
  have htext := BitsPlace.text_of_mem_encodings htype hvalue hlt style
  refine ⟨htext, hsublist, hsublist.nodup hnodup, fun i name => mem_setNames_iff_of_nodup hnodup,
    fun other otherBits htypeOther hvalueOther hltOther => ?_, fun content => exists_decodeBits_iff⟩
  have hiff : other.text style = extension.text style ↔
      ∀ i < place.names.length, otherBits[i]? = some true ↔ bits[i]? = some true := by
    rw [htext, BitsPlace.text_of_mem_encodings htypeOther hvalueOther hltOther style, Except.ok.injEq,
      ← setNames_eq_setNames_iff hnodup]
    constructor
    · intro h
      simp only [BitsPlace.contents, indented_append, String.append_right_inj, String.append_left_inj] at h
      exact BitsPlace.names_eq_of_shown (setNames_sublist _ _) hsublist h
    · intro h
      rw [h]
  refine ⟨hiff, fun n hzeros => hiff.mpr fun i _ => ?_⟩
  rw [hzeros, getElem?_append_zeros]

/-- Fourteen zeros more fill up two bytes, and the reasons stay the same. -/
theorem namedBits_text_zeros :
    let place : BitsPlace := .distributionPoint false [] none none []
    let extension : Extension := ⟨"2.5.29.31", false, [4, 8, 48, 6, 48, 4, 129, 2, 6, 64]⟩
    let longer : Extension := ⟨"2.5.29.31", false, [4, 9, 48, 7, 48, 5, 129, 3, 0, 64, 0]⟩
    extension.type? = some place.type ∧ extension.value ∈ leaf .octetString (place.encodings [false, true]) ∧
      extension.value.length < wordLimit ∧
      extension.text {} = .ok "CRL Distribution Point [1]:\n    Reasons:\n        keyCompromise\n" ∧
      longer.text {} = extension.text {} := by
  intro place extension longer
  -- one point that has nothing but reasons
  have hreasons : ∀ {content : List UInt8} {bits : List Bool}, content ∈ bitContents bits →
      ∀ point ∈ node .sequence (leaf (.context 1) {content}), point.length < wordLimit →
        (Element.make .sequence true point).encoding ∈ place.encodings bits := by
    intro content bits hcontent point hpoint hlt
    refine BitsPlace.mem_encodings.mpr ⟨content, hcontent, make_mem_node ?_ hlt .sequence⟩
    simpa [each, optionally] using hpoint
  have htype : extension.type? = some place.type := rfl
  have hcontent : [6, 64] ∈ bitContents [false, true] := ⟨[64], rfl, rfl⟩
  have hpoint : [48, 4, 129, 2, 6, 64] ∈ node .sequence (leaf (.context 1) {[6, 64]}) :=
    make_mem_node (make_mem_leaf (Set.mem_singleton _) (by decide) (.context 1)) (by decide) .sequence
  have hvalue : extension.value ∈ leaf .octetString (place.encodings [false, true]) :=
    make_mem_leaf (hreasons hcontent _ hpoint (by decide)) (by decide) .octetString
  have hlonger : [0, 64, 0] ∈ bitContents ([false, true] ++ List.replicate 14 false) := ⟨[64, 0], rfl, by decide⟩
  have hpointLonger : [48, 5, 129, 3, 0, 64, 0] ∈ node .sequence (leaf (.context 1) {[0, 64, 0]}) :=
    make_mem_node (make_mem_leaf (Set.mem_singleton _) (by decide) (.context 1)) (by decide) .sequence
  have hvalueLonger : longer.value ∈ leaf .octetString (place.encodings ([false, true] ++ List.replicate 14 false)) :=
    make_mem_leaf (hreasons hlonger _ hpointLonger (by decide)) (by decide) .octetString
  obtain ⟨htext, -, -, -, hothers, -⟩ := namedBits_text htype hvalue (by decide) {}
  refine ⟨htype, hvalue, by decide, ?_, (hothers longer _ rfl hvalueLonger (by decide)).2 14 rfl⟩
  rw [htext]
  rfl

end Extension

end CertExtensions
