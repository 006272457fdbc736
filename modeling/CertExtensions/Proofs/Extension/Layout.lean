import CertExtensions.Extension.Basic
import CertExtensions.Proofs.Asn1.Element
import CertExtensions.Proofs.Extension.Links
import CertExtensions.Proofs.Reader

/-!
# The layout of a value

A value is decoded without regard to its layout, so it cannot depend on the layout whether there is a text. What the
layout decides is how deep an indent is, and whether URIs become links; these URIs are those that the value has for
that (`ExtensionType.shows`), and all else in the lines and their depths stays (`Relinked`). Main statement:
`text_styles`.
-/

namespace CertExtensions

open Asn1 Outline

/-! ### Types -/

/-- The links of what the octets are read as; none if they cannot be read. -/
def Asn1.TaggedType.linksRead {α : Type} (type : TaggedType α) (links : α → List Link) (octets : List UInt8) :
    List Link :=
  match type.whole octets with
  | .ok value => links value
  | .error _ => []

/-- The links of the general names and the pointers to practice statements that the octets hold as a value of the
type. -/
def ExtensionType.links (type : ExtensionType) (octets : List UInt8) : List Link :=
  match type with
  | .authorityInformationAccess | .subjectInformationAccess =>
    AccessDescription.listType.linksRead (·.flatMap AccessDescription.links) octets
  | .subjectAlternativeName | .issuerAlternativeName | .certificateIssuer =>
    GeneralName.listType.linksRead GeneralName.links octets
  | .issuingDistributionPoint => IssuingDistributionPoint.taggedType.linksRead IssuingDistributionPoint.links octets
  | .nameConstraints => NameConstraints.taggedType.linksRead NameConstraints.links octets
  | .crlDistributionPoints | .freshestCrl =>
    DistributionPoint.listType.linksRead (·.flatMap DistributionPoint.links) octets
  | .certificatePolicies => PolicyInformation.listType.linksRead (·.flatMap PolicyInformation.links) octets
  | .authorityKeyIdentifier => AuthorityKeyIdentifier.taggedType.linksRead AuthorityKeyIdentifier.links octets
  | .qcStatements => QualifiedStatement.listType.linksRead (·.flatMap QualifiedStatement.links) octets
  | .procuration => Procuration.taggedType.linksRead Procuration.links octets
  | .admission => Admission.taggedType.linksRead Admission.links octets
  | _ => []

namespace Presentation

/-- Whether every outline that is shown of octets has these links. -/
def Shows (presentation : Presentation) (links : List UInt8 → List Link) : Prop :=
  ∀ octets lines, presentation.body octets = .ok (.outline lines) → lines.links = links octets

private theorem shows_dump : Shows .dump fun _ => [] := by
  intro octets lines h
  cases h

private theorem shows_number : Shows .number fun _ => [] := by
  intro octets lines h
  cases h
  rfl

/-- Only dumps are shown as a dump, and that is of all the octets. -/
theorem body_eq_dump {presentation : Presentation} {octets shown : List UInt8}
    (h : presentation.body octets = .ok (.dump shown)) : presentation = .dump ∧ shown = octets := by
  cases presentation with
  | dump =>
    cases h
    exact ⟨rfl, rfl⟩
  | number => cases h
  | structured schema =>
    obtain ⟨lines, -, hlines⟩ := Reader.map_eq_ok h
    cases hlines

private theorem outline_of_body {schema : Schema Outline} {octets : List UInt8} {lines : Outline}
    (h : (structured schema).body octets = .ok (.outline lines)) : schema.whole octets = .ok lines := by
  obtain ⟨found, hfound, heq⟩ := Reader.map_eq_ok h
  cases heq
  exact hfound

/-- Values are read first and then shown, so it is enough to know the outline of each value that is read. -/
private theorem shows_map {α : Type} {schema : Schema α} {outline : α → Outline} {links : List UInt8 → List Link}
    (h : ∀ octets value, schema.whole octets = .ok value → (outline value).links = links octets) :
    Shows (.structured (schema.map outline)) links := by
  intro octets lines hbody
  have hlines := outline_of_body hbody
  rw [Schema.whole_map] at hlines
  obtain ⟨value, hvalue, rfl⟩ := Reader.map_eq_ok hlines
  exact h octets value hvalue

private theorem shows_structured {α : Type} {schema : Schema α} {outline : α → Outline}
    (h : ∀ value, (outline value).links = []) : Shows (.structured (schema.map outline)) fun _ => [] :=
  shows_map fun _ value _ => h value

private theorem shows_ofType {α : Type} {type : TaggedType α} {outline : α → Outline} {links : α → List Link}
    (h : ∀ value, (outline value).links = links value) : Shows (.ofType type outline) (type.linksRead links) := by
  apply shows_map
  intro octets value hvalue
  have hwhole : type.whole octets = .ok value := hvalue
  rw [TaggedType.linksRead, hwhole]
  exact h value

private theorem shows_ofText (schema : Schema String) : Shows (.ofText schema) fun _ => [] :=
  shows_structured fun _ => rfl

end Presentation

open Presentation in
/-- The links at the ends of lines are those of the value, whatever its type is. -/
theorem ExtensionType.shows (type : ExtensionType) : type.presentation.Shows type.links := by
  cases type with
  | authorityInformationAccess | subjectInformationAccess =>
    exact shows_ofType (AccessDescription.links_listOutline _)
  | subjectAlternativeName | issuerAlternativeName | certificateIssuer =>
    exact shows_ofType (GeneralName.links_outline 0)
  | issuingDistributionPoint => exact shows_ofType IssuingDistributionPoint.links_outline
  | nameConstraints => exact shows_ofType NameConstraints.links_outline
  | crlDistributionPoints | freshestCrl => exact shows_ofType (DistributionPoint.links_listOutline _)
  | certificatePolicies => exact shows_ofType PolicyInformation.links_listOutline
  | authorityKeyIdentifier => exact shows_ofType AuthorityKeyIdentifier.links_outline
  | qcStatements => exact shows_ofType QualifiedStatement.links_listOutline
  | procuration => exact shows_ofType Procuration.links_outline
  | admission => exact shows_ofType Admission.links_outline
  | entrustVersionInformation => exact shows_structured (by simp [EntrustVersion.outline])
  | subjectDirectoryAttributes | vsNonVerified => exact shows_structured DirectoryAttribute.links_listOutline
  | subjectKeyIdentifier => exact shows_structured (by simp [SubjectKeyIdentifier.outline])
  | keyUsage | netscapeCertificateType => exact shows_structured fun _ => links_lines 0 _
  | privateKeyUsagePeriod => exact shows_structured (by simp [PrivateKeyUsagePeriod.outline])
  | basicConstraints => exact shows_structured BasicConstraints.links_outline
  | crlNumber | deltaCrlIndicator => exact shows_structured (by simp [CrlNumber.outline])
  | reasonCode => exact shows_structured ReasonCode.links_outline
  | holdInstructionCode => exact shows_structured (by simp [HoldInstruction.outline])
  | invalidityDate | dateOfCertGen | msCrlNextPublish => exact shows_structured (by simp [Moment.outline])
  | policyMappings => exact shows_structured PolicyMapping.links_listOutline
  | policyConstraints => exact shows_structured (by simp [PolicyConstraints.outline])
  | extendedKeyUsage => exact shows_structured (by simp [ExtendedKeyUsage.outline])
  | inhibitAnyPolicy => exact shows_structured (by simp [InhibitAnyPolicy.outline])
  | netscapeBaseUrl | netscapeRevocationUrl | netscapeCaRevocationUrl | netscapeCertificateRenewalUrl
  | netscapeCaPolicyUrl | netscapeSslServerName | netscapeComment | vsCzag | vsFidelityToken | vsInBoxV1 | vsInBoxV2
  | vsSerialNumberRollover | vsOnSiteJurisdictionHash => exact shows_ofText ia5String.schema
  | biometricInfo => exact shows_structured BiometricData.links_listOutline
  | ocspNoCheck | liabilityLimitationFlag | vsTokenType | vsUnknown => exact shows_structured (by simp)
  | monetaryLimit => exact shows_structured (MonetaryValue.links_outline 0)
  | declarationOfMajority => exact shows_structured DeclarationOfMajority.links_outline
  | iccsn => exact shows_number
  | restriction | additionalInformation | msEnrollCertTypeExtension => exact shows_ofText anyString
  | validityModel => exact shows_structured (by simp [ValidityModel.outline])
  | msCaVersion => exact shows_structured (by simp [CaVersion.outline])
  | msCertificateTemplate => exact shows_structured (by simp [CertificateTemplate.outline])
  | smimeCapabilities => exact shows_structured MailCapability.links_listOutline
  | _ => exact shows_dump

/-! ### Lines -/

/-- The second list of lines is the first one with the URI of each of the links, in their order, turned into a link to
itself at the end of a line that has nothing but the label in front. Lines have a depth and a content. -/
inductive Relinked : List Link → List (Nat × String) → List (Nat × String) → Prop where
  | nil : Relinked [] [] []
  | same {links : List Link} {plain linked : List (Nat × String)} (line : Nat × String) :
    Relinked links plain linked → Relinked links (line :: plain) (line :: linked)
  | link {links : List Link} {plain linked : List (Nat × String)} (depth : Nat) (label uri : String) :
    Relinked links plain linked →
      Relinked (⟨label, uri⟩ :: links) ((depth, label ++ uri) :: plain)
        ((depth, label ++ ("<a href=\"" ++ uri ++ "\">" ++ uri ++ "</a>")) :: linked)

theorem Relinked.depths {links : List Link} {plain linked : List (Nat × String)} (h : Relinked links plain linked) :
    linked.map Prod.fst = plain.map Prod.fst := by
  induction h with
  | nil => rfl
  | same line _ ih => simp [ih]
  | link depth label uri _ ih => simp [ih]

/-- The text of lines: each with as many indents in front as its depth says, and a line feed behind. -/
def indented (indent : String) (lines : List (Nat × String)) : String :=
  String.join (lines.map fun (depth, content) => String.join (List.replicate depth indent) ++ content ++ "\n")

theorem indented_append (indent : String) (front back : List (Nat × String)) :
    indented indent (front ++ back) = indented indent front ++ indented indent back := by
  simp [indented, String.join_append]

theorem toList_indented_cons (indent : String) (depth : Nat) (content : String) (lines : List (Nat × String)) :
    (indented indent ((depth, content) :: lines)).toList =
      (String.join (List.replicate depth indent)).toList ++
        (content.toList ++ '\n' :: (indented indent lines).toList) := by
  simp [indented, String.join_cons]

namespace Outline

/-- The depths and contents of the lines. -/
def contents (linkUris : Bool) (lines : Outline) : List (Nat × String) :=
  lines.map fun line => (line.depth, line.content.layOut linkUris)

private theorem indentation_eq (indent : String) (depth : Nat) :
    indentation indent depth = String.join (List.replicate depth indent) := by
  induction depth with
  | zero => rfl
  | succ depth ih => simp [indentation, ih, List.replicate_succ, String.join_cons]

theorem layOut_eq (style : LayoutStyle) (lines : Outline) :
    lines.layOut style = indented style.indent (lines.contents style.linkUris) := by
  induction lines with
  | nil => rfl
  | cons line lines ih =>
    rw [layOut, ih, layOutLine, indentation_eq]
    simp [indented, contents, String.join_cons]

private theorem layOut_append (style : LayoutStyle) (front back : Outline) :
    (front ++ back).layOut style = front.layOut style ++ back.layOut style := by
  induction front with
  | nil => exact String.empty_append.symm
  | cons line front ih => rw [List.cons_append, layOut, ih, layOut, String.append_assoc]

theorem layOut_line (style : LayoutStyle) (text : String) : layOut style (line 0 text) = text ++ "\n" := by
  rw [line, layOut, layOut, layOutLine, indentation, String.append_empty, String.empty_append]
  rfl

theorem layOut_flatten (style : LayoutStyle) (blocks : List Outline) :
    layOut style blocks.flatten = String.join (blocks.map (layOut style)) := by
  induction blocks with
  | nil => rfl
  | cons block blocks ih => rw [List.flatten_cons, layOut_append, ih, List.map_cons, String.join_cons]

private theorem relinked_contents (lines : Outline) :
    Relinked lines.links (lines.contents false) (lines.contents true) := by
  induction lines with
  | nil => exact .nil
  | cons line lines ih =>
    obtain ⟨depth, text, uri?⟩ := line
    cases uri? with
    | none => exact .same (depth, text) ih
    | some uri => exact .link depth text uri ih

end Outline

/-! ### Texts -/

namespace Extension

/-- The links that the octets hold as a value of the type of the extension; none if the type is not known. -/
def links (extension : Extension) (octets : List UInt8) : List Link :=
  match extension.type? with
  | some type => type.links octets
  | none => []

theorem shows (extension : Extension) : extension.presentation.Shows extension.links := by
  unfold presentation
  cases h : extension.type? with
  | none =>
    intro octets lines hbody
    cases hbody
  | some type =>
    intro octets lines hbody
    rw [links, h]
    exact type.shows octets lines hbody

/-- A value has a text in every style or in none, with the same fault. A dump is the same in every style. Any other
text is made of one list of depths and contents: the indent stands in front of a content as often as its depth says,
and links change nothing but the URIs among the general names and the policy qualifiers of the value. -/
theorem text_styles (extension : Extension) :
    (∃ fault, ∀ style, extension.text style = .error fault) ∨
    ∃ octets, octetString.whole extension.value = .ok octets ∧
      ((extension.presentation = .dump ∧ ∀ style, extension.text style = .ok (Hex.dump octets)) ∨
        extension.presentation ≠ .dump ∧ ∃ plain linked, Relinked (extension.links octets) plain linked ∧
          linked.map Prod.fst = plain.map Prod.fst ∧
          ∀ style, extension.text style =
            .ok (indented style.indent (if style.linkUris then linked else plain))) := by
  cases hvalue : octetString.whole extension.value with
  | error fault =>
    refine .inl ⟨fault, fun style => ?_⟩
    rw [text, body, hvalue]
    rfl
  | ok octets =>
    have htext := text_eq hvalue
    cases hshown : extension.presentation.body octets with
    | error fault =>
      refine .inl ⟨fault, fun style => ?_⟩
      rw [htext, hshown]
      rfl
    | ok shown =>
      refine .inr ⟨octets, rfl, ?_⟩
      cases shown with
      | dump shown =>
        obtain ⟨hdump, rfl⟩ := Presentation.body_eq_dump hshown
        refine .inl ⟨hdump, fun style => ?_⟩
        rw [htext, hshown]
        rfl
      | outline lines =>
        -- neither list of contents depends on the style that is asked for
        have hrelinked := lines.relinked_contents
        rw [extension.shows octets lines hshown] at hrelinked
        refine .inr ⟨?_, lines.contents false, lines.contents true, hrelinked, hrelinked.depths, fun style => ?_⟩
        · intro hdump
          rw [hdump] at hshown
          cases hshown
        · rw [htext, hshown]
          refine congrArg Except.ok ((layOut_eq style lines).trans ?_)
          cases style.linkUris <;> rfl

/-- A name that is a URI, with links. -/
example :
    (⟨"2.5.29.17", false, [4, 8, 0x30, 6, 0x86, 4, 0x61, 0x3A, 0x2F, 0x2F]⟩ : Extension).text ⟨true, "  "⟩ =
      .ok "Uniform Resource Identifier: <a href=\"a://\">a://</a>\n" := by decide

end Extension

end CertExtensions
