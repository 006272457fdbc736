import CertExtensions.Proofs.Asn1.CharacterString
import CertExtensions.Proofs.Asn1.Integer
import CertExtensions.Proofs.Extension.Rendering

/-!
# Texts of certificate policies

Policies are shown one after the other, each under its number, and their qualifiers under the numbers of the policy and
the qualifier. `PolicyInformation.lines` says line by line what is shown of a list of policies, and `policies_text` that
this is the text of each encoding of the list.
-/

open Computability

namespace CertExtensions

open Asn1 Reader

/-! ### Encodings -/

/-- An organization, and the numbers of notices. -/
def NoticeReference.encodings (reference : NoticeReference) : Language UInt8 :=
  node .sequence (texts reference.organization *
    node .sequence (each (fun n => leaf .integer (int64Contents n)) reference.numbers))

def UserNotice.encodings (notice : UserNotice) : Language UInt8 :=
  node .sequence (optionally NoticeReference.encodings notice.reference? * optionally texts notice.text?)

namespace PolicyQualifier

/-- An identifier tells what follows it; any elements may follow one that is not known. -/
def contents : PolicyQualifier → Language UInt8
  | .pointer uri => leaf .objectIdentifier (objectIdContents .cpsPointer) * leaf .ia5String (asciiContents uri)
  | .notice shown => leaf .objectIdentifier (objectIdContents .userNotice) * shown.encodings
  | .other id elements =>
    if id = .cpsPointer ∨ id = .userNotice then 0
    else leaf .objectIdentifier (objectIdContents id) * verbatim someElement∗ elements

def encodings (qualifier : PolicyQualifier) : Language UInt8 :=
  node .sequence qualifier.contents

end PolicyQualifier

namespace PolicyInformation

def qualifierEncodings (qualifiers : List PolicyQualifier) : Language UInt8 :=
  node .sequence (each PolicyQualifier.encodings qualifiers)

def encodings (information : PolicyInformation) : Language UInt8 :=
  node .sequence (leaf .objectIdentifier (objectIdContents information.policy) *
    optionally qualifierEncodings information.qualifiers?)

def listEncodings (policies : List PolicyInformation) : Language UInt8 :=
  node .sequence (each encodings policies)

end PolicyInformation

/-! ### Reading -/

private theorem NoticeReference.finds : NoticeReference.taggedType.schema.Finds NoticeReference.encodings := by
  refine TaggedType.finds_sequence fun reference content hcontent hlt => ?_
  obtain ⟨organization, horganization, numbers, hnumbers, rfl⟩ := Language.mem_mul.mp hcontent
  rw [List.length_append] at hlt
  refine (bind_of_ok (finds_anyString.required horganization (by omega) numbers)).trans ?_
  exact bind_of_ok ((TaggedType.finds_sequenceOf finds_int64).required_last hnumbers (by omega))

private theorem UserNotice.finds : UserNotice.taggedType.schema.Finds UserNotice.encodings := by
  refine TaggedType.finds_sequence fun notice content hcontent hlt => ?_
  obtain ⟨reference, hreference, text, htext, rfl⟩ := Language.mem_mul.mp hcontent
  rw [List.length_append] at hlt
  -- a reference is a sequence, which no string is
  have hapart : anyString.Apart NoticeReference.taggedType.schema := Schema.apart_choice (by decide)
  have hpasses := finds_anyString.passes_optionally_last hapart htext (by omega)
  refine (bind_of_ok (NoticeReference.finds.optional hreference (by omega) hpasses)).trans ?_
  exact bind_of_ok (finds_anyString.optional_last htext (by omega))

private theorem PolicyQualifier.finds : PolicyQualifier.taggedType.schema.Finds PolicyQualifier.encodings := by
  refine TaggedType.finds_sequence fun qualifier content hcontent hlt => ?_
  cases qualifier with
  | pointer uri =>
    obtain ⟨id, hid, pointer, hpointer, rfl⟩ := Language.mem_mul.mp hcontent
    rw [List.length_append] at hlt
    refine (bind_of_ok (finds_objectId.required hid (by omega) pointer)).trans ?_
    exact bind_of_ok (finds_ia5String.required_last hpointer (by omega))
  | notice shown =>
    obtain ⟨id, hid, notice, hnotice, rfl⟩ := Language.mem_mul.mp hcontent
    rw [List.length_append] at hlt
    refine (bind_of_ok (finds_objectId.required hid (by omega) notice)).trans ?_
    exact bind_of_ok (UserNotice.finds.required_last hnotice (by omega))
  | other id elements =>
    rw [PolicyQualifier.contents] at hcontent
    split at hcontent
    · exact absurd hcontent (Language.notMem_zero content)
    · next hunknown =>
      obtain ⟨hpointer, hnotice⟩ := not_or.mp hunknown
      obtain ⟨front, hid, rest, ⟨rfl, hrest⟩, rfl⟩ := Language.mem_mul.mp hcontent
      rw [List.length_append] at hlt
      refine (bind_of_ok (finds_objectId.required hid (by omega) _)).trans ?_
      rw [if_neg hpointer, if_neg hnotice]
      exact bind_of_ok (remaining_of_mem hrest (by omega))

private theorem PolicyInformation.finds : PolicyInformation.taggedType.schema.Finds PolicyInformation.encodings := by
  refine TaggedType.finds_sequence fun information content hcontent hlt => ?_
  obtain ⟨policy, hpolicy, qualifiers, hqualifiers, rfl⟩ := Language.mem_mul.mp hcontent
  rw [List.length_append] at hlt
  refine (bind_of_ok (finds_objectId.required hpolicy (by omega) qualifiers)).trans ?_
  exact bind_of_ok ((TaggedType.finds_sequenceOf PolicyQualifier.finds).optional_last hqualifiers (by omega))

/-! ### Lines -/

/-- The lines of a notice: the reference if there is one, and the text if there is one. -/
def UserNotice.lines (notice : UserNotice) : List (Nat × String) :=
  [(2, "User Notice:")] ++
  (notice.reference?.toList.flatMap fun reference =>
    [(3, "Notice Reference:"),
      (4, "Organization: " ++ reference.organization),
      (4, "Notice Numbers: " ++ ", ".intercalate (reference.numbers.map toString))]) ++
  notice.text?.toList.map fun text => (3, "Explicit Text: " ++ text)

/-- The lines of a qualifier; elements behind an identifier that is not known are shown as a number if there are any. -/
def PolicyQualifier.lines (linkUris : Bool) : PolicyQualifier → List (Nat × String)
  | .pointer uri => [(2, "CPS Pointer: " ++ if linkUris then "<a href=\"" ++ uri ++ "\">" ++ uri ++ "</a>" else uri)]
  | .notice shown => shown.lines
  | .other id [] => [(2, id.dotted)]
  | .other id elements => [(2, id.dotted), (2, Hex.numeral elements)]

namespace PolicyInformation

/-- The lines of a qualifier below its number and that of its policy. -/
def qualifierLines (linkUris : Bool) (i j : Nat) (qualifier : PolicyQualifier) : List (Nat × String) :=
  (1, "Policy Qualifier Information [" ++ toString (i + 1) ++ "," ++ toString (j + 1) ++ "]:") ::
    qualifier.lines linkUris

/-- The lines of policies: the number and the identifier of each, and then its qualifiers. -/
def lines (linkUris : Bool) (policies : List PolicyInformation) : List (Nat × String) :=
  (policies.mapIdx fun i information =>
    [(0, "Certificate Policy [" ++ toString (i + 1) ++ "]:"),
      (1, "Policy Identifier: " ++ information.policy.dotted)] ++
    ((information.qualifiers?.getD []).mapIdx (qualifierLines linkUris i)).flatten).flatten

end PolicyInformation

private theorem UserNotice.contents_outline (linkUris : Bool) (notice : UserNotice) :
    notice.outline.contents linkUris = notice.lines := by
  obtain ⟨reference?, text?⟩ := notice
  cases reference? <;> simp [UserNotice.outline, UserNotice.lines, NoticeReference.outline]

private theorem PolicyQualifier.contents_outline (linkUris : Bool) (qualifier : PolicyQualifier) :
    qualifier.outline.contents linkUris = qualifier.lines linkUris := by
  cases qualifier with
  | pointer uri => rfl
  | notice shown => exact shown.contents_outline linkUris
  | other id elements => cases elements <;> rfl

namespace PolicyInformation

private theorem contents_qualifierOutline (linkUris : Bool) (i j : Nat) (qualifier : PolicyQualifier) :
    (qualifierOutline (i + 1) (j + 1) qualifier).contents linkUris = qualifierLines linkUris i j qualifier := by
  rw [qualifierOutline, Outline.contents_append, qualifier.contents_outline]
  rfl

private theorem contents_listOutline (linkUris : Bool) (policies : List PolicyInformation) :
    (listOutline policies).contents linkUris = lines linkUris policies := by
  simp [listOutline, lines, outline, contents_qualifierOutline]

end PolicyInformation

/-! ### Texts -/

namespace Extension

/-- The text of encoded policies has the lines of the policies and no others. -/
theorem policies_text {policies : List PolicyInformation} {value : List UInt8}
    (hvalue : value ∈ leaf .octetString (PolicyInformation.listEncodings policies)) (hlt : value.length < wordLimit)
    (critical : Bool) (style : LayoutStyle) :
    (⟨"2.5.29.32", critical, value⟩ : Extension).text style =
      .ok (indented style.indent (PolicyInformation.lines style.linkUris policies)) := by
  have htype : (⟨"2.5.29.32", critical, value⟩ : Extension).type? = some .certificatePolicies :=
    ExtensionType.ofIdentifier?_identifier .certificatePolicies
  have htext := text_of_mem htype rfl (TaggedType.finds_sequenceOf PolicyInformation.finds) hvalue hlt style
  rwa [PolicyInformation.contents_listOutline] at htext

theorem policies_text_twoPolicies :
    let policies : List PolicyInformation := [⟨⟨[1, 2, 3]⟩, some [.pointer "u", .notice ⟨some ⟨"o", [1, -2]⟩, some "t"⟩,
      .other ⟨[1, 2, 4]⟩ [5, 0]]⟩, ⟨⟨[1, 2, 5]⟩, none⟩]
    let value : List UInt8 := [4, 69, 48, 67, 48, 59, 6, 2, 42, 3, 48, 53, 48, 13, 6, 8, 43, 6, 1, 5, 5, 7, 2, 1, 22, 1,
      117, 48, 28, 6, 8, 43, 6, 1, 5, 5, 7, 2, 2, 48, 16, 48, 11, 22, 1, 111, 48, 6, 2, 1, 1, 2, 1, 254, 22, 1, 116, 48,
      6, 6, 2, 42, 4, 5, 0, 48, 4, 6, 2, 42, 5]
    value ∈ leaf .octetString (PolicyInformation.listEncodings policies) ∧ value.length < wordLimit ∧
      (⟨"2.5.29.32", false, value⟩ : Extension).text ⟨true, " "⟩ = .ok ("Certificate Policy [1]:\n" ++
        " Policy Identifier: 1.2.3\n Policy Qualifier Information [1,1]:\n  CPS Pointer: <a href=\"u\">u</a>\n" ++
        " Policy Qualifier Information [1,2]:\n  User Notice:\n   Notice Reference:\n    Organization: o\n" ++
        "    Notice Numbers: 1, -2\n   Explicit Text: t\n Policy Qualifier Information [1,3]:\n  1.2.4\n  0x0500\n" ++
        "Certificate Policy [2]:\n Policy Identifier: 1.2.5\n") := by
  intro policies value
  have hascii : ∀ text ∈ ["u", "o", "t"], ∀ c ∈ text.toList, c.toNat < 128 := by simp
  have hids : ObjectId.decode [42, 3] = .ok ⟨[1, 2, 3]⟩ ∧ ObjectId.decode [42, 4] = .ok ⟨[1, 2, 4]⟩ ∧
      ObjectId.decode [42, 5] = .ok ⟨[1, 2, 5]⟩ ∧ ObjectId.decode [43, 6, 1, 5, 5, 7, 2, 1] = .ok .cpsPointer ∧
      ObjectId.decode [43, 6, 1, 5, 5, 7, 2, 2] = .ok .userNotice := ⟨rfl, rfl, rfl, rfl, rfl⟩
  obtain ⟨hfirst, hqualifier, hsecond, hcps, hunotice⟩ := hids
  have huri : characterBytes "u" ∈ asciiContents "u" := ⟨hascii _ (by decide), rfl⟩
  have hone : [1] ∈ int64Contents 1 := ⟨by decide, by decide, singleton_mem_integerContents 1⟩
  have htwo : [254] ∈ int64Contents (-2) := ⟨by decide, by decide, singleton_mem_integerContents 254⟩
  have hnull : IsElement .null false [] [5, 0] := ⟨[0], .short (by decide), rfl⟩
  have hpointer := make_mem_node (Language.append_mem_mul (make_mem_objectId hcps (by decide))
    (make_mem_leaf huri (by decide) .ia5String)) (by decide) .sequence
  have hnumbers := make_mem_node (Language.append_mem_mul (make_mem_leaf hone (by decide) .integer)
    (Language.append_mem_mul (make_mem_leaf htwo (by decide) .integer) Language.nil_mem_one)) (by decide) .sequence
  have hreference := make_mem_node (Language.append_mem_mul
    (make_mem_texts (hascii "o" (by decide)) (by decide)) hnumbers) (by decide) .sequence
  have hshown := make_mem_node (Language.append_mem_mul hreference
    (make_mem_texts (hascii "t" (by decide)) (by decide))) (by decide) .sequence
  have hnotice := make_mem_node (Language.append_mem_mul (make_mem_objectId hunotice (by decide)) hshown) (by decide)
    .sequence
  have helements : [5, 0] ∈ verbatim someElement∗ [5, 0] :=
    ⟨rfl, mem_kstar_of_mem (mem_someElement_of_isElement hnull (by decide) (by decide))⟩
  have hother := make_mem_node (Language.append_mem_mul (make_mem_objectId hqualifier (by decide)) helements)
    (by decide) .sequence
  have hqualifiers := make_mem_node (Language.append_mem_mul hpointer <| Language.append_mem_mul hnotice <|
    Language.append_mem_mul hother Language.nil_mem_one) (by decide) .sequence
  have hfull := make_mem_node (Language.append_mem_mul (make_mem_objectId hfirst (by decide)) hqualifiers) (by decide)
    .sequence
  have hbare := make_mem_node (Language.append_mem_mul (make_mem_objectId hsecond (by decide)) Language.nil_mem_one)
    (by decide) .sequence
  have hvalue : value ∈ leaf .octetString (PolicyInformation.listEncodings policies) :=
    make_mem_leaf (make_mem_node (Language.append_mem_mul hfull <| Language.append_mem_mul hbare Language.nil_mem_one)
      (by decide) .sequence) (by decide) .octetString
  have hlt : value.length < wordLimit := by decide
  exact ⟨hvalue, hlt, (policies_text hvalue hlt false ⟨true, " "⟩).trans (by decide +kernel)⟩

/-- An element with a tag number that does not fit a word has no place behind an identifier that is not known, and a
printable string with a question mark is no text of a notice. -/
theorem policies_text_limits :
    let element : List UInt8 := [4, 28, 48, 26, 48, 24, 6, 2, 42, 3, 48, 18, 48, 16, 6, 2, 42, 4,
      159, 130, 128, 128, 128, 128, 128, 128, 128, 128, 0, 0]
    let mark : List UInt8 := [4, 27, 48, 25, 48, 23, 6, 2, 42, 3, 48, 17, 48, 15, 6, 8, 43, 6, 1, 5, 5, 7, 2, 2,
      48, 3, 19, 1, 63]
    element ∈ leaf .octetString (node .sequence (node .sequence (leaf .objectIdentifier (objectIdContents ⟨[1, 2, 3]⟩) *
      node .sequence (node .sequence (leaf .objectIdentifier (objectIdContents ⟨[1, 2, 4]⟩) *
        elementsOf (.context (2 ^ 64))))))) ∧
      (⟨"2.5.29.32", false, element⟩ : Extension).text {} = .error .integerOverflow ∧
    mark ∈ leaf .octetString (node .sequence (node .sequence (leaf .objectIdentifier (objectIdContents ⟨[1, 2, 3]⟩) *
      node .sequence (node .sequence (leaf .objectIdentifier (objectIdContents .userNotice) *
        node .sequence (leaf .printableString {characterBytes "?"})))))) ∧
      (⟨"2.5.29.32", false, mark⟩ : Extension).text {} = .error .invalid := by
  intro element mark
  have hpolicy : ObjectId.decode [42, 3] = .ok ⟨[1, 2, 3]⟩ := rfl
  have hqualifier : ObjectId.decode [42, 4] = .ok ⟨[1, 2, 4]⟩ := rfl
  have hnotice : ObjectId.decode [43, 6, 1, 5, 5, 7, 2, 2] = .ok .userNotice := rfl
  have hmark : [63] ∈ ({characterBytes "?"} : Language UInt8) := rfl
  have hlargeQualifiers := make_mem_node (make_mem_node (Language.append_mem_mul
    (make_mem_objectId hqualifier (by decide)) unreadable_mem_elementsOf) (by decide) .sequence) (by decide) .sequence
  have hlargePolicies := make_mem_node (make_mem_node (Language.append_mem_mul
    (make_mem_objectId hpolicy (by decide)) hlargeQualifiers) (by decide) .sequence) (by decide) .sequence
  have hshown := make_mem_node (make_mem_leaf hmark (by decide) .printableString) (by decide) .sequence
  have hmarkQualifiers := make_mem_node (make_mem_node (Language.append_mem_mul
    (make_mem_objectId hnotice (by decide)) hshown) (by decide) .sequence) (by decide) .sequence
  have hmarkPolicies := make_mem_node (make_mem_node (Language.append_mem_mul
    (make_mem_objectId hpolicy (by decide)) hmarkQualifiers) (by decide) .sequence) (by decide) .sequence
  exact ⟨make_mem_leaf hlargePolicies (by decide) .octetString, by decide,
    make_mem_leaf hmarkPolicies (by decide) .octetString, by decide⟩

end Extension

end CertExtensions
