import CertExtensions.Proofs.Extension.Layout
import Mathlib.Data.List.Basic

/-!
# Links as markup

A link is written as an anchor: the URI stands in it as target and as text, as it is. A reader of markup takes the first
quote for the end of the target and the first angle bracket for the end of the text (`Anchored.read?`), so it finds the
URI again exactly where the URI has neither (`Link.read?_anchor`). Each of these signs in a URI comes into the line
twice, besides the two of the anchor (`Link.count_anchor`). `links_anchored` tells this of all links of a value, whose
labels have no such signs (`label_mem_labels`).
-/

namespace CertExtensions

open Asn1

/-! ### Anchors -/

/-- A text, then one anchor with its target and its text, and nothing behind it. -/
structure Anchored where
  label : List Char
  target : List Char
  shown : List Char
  deriving DecidableEq, Repr

namespace Anchored

def written (anchored : Anchored) : List Char :=
  anchored.label ++ "<a href=\"".toList ++ anchored.target ++ "\">".toList ++ anchored.shown ++ "</a>".toList

/-- Reads a line with one anchor: the target ends at the first quote, and a text at the first angle bracket. -/
def read? (line : List Char) : Option Anchored := do
  let opened ← (line.dropWhile (· ≠ '<')).dropPrefix? "<a href=\"".toList
  let inside ← (opened.dropWhile (· ≠ '"')).dropPrefix? "\">".toList
  if inside.dropWhile (· ≠ '<') = "</a>".toList then
    some ⟨line.takeWhile (· ≠ '<'), opened.takeWhile (· ≠ '"'), inside.takeWhile (· ≠ '<')⟩
  else none

private theorem dropPrefix?_eq_some_iff {text front rest : List Char} :
    text.dropPrefix? front = some rest ↔ text = front ++ rest := by
  simp [List.dropPrefix?_eq_some_iff]

section

variable {stop : Char} {front : List Char}

private theorem takeWhile_stop (h : stop ∉ front) (rest : List Char) :
    (front ++ stop :: rest).takeWhile (· ≠ stop) = front := by
  have hall : ∀ c ∈ front, decide (c ≠ stop) = true := fun c hc => decide_eq_true fun heq => h (heq ▸ hc)
  rw [List.takeWhile_append_of_pos hall]
  simp

private theorem dropWhile_stop (h : stop ∉ front) (rest : List Char) :
    (front ++ stop :: rest).dropWhile (· ≠ stop) = stop :: rest := by
  have hall : ∀ c ∈ front, decide (c ≠ stop) = true := fun c hc => decide_eq_true fun heq => h (heq ▸ hc)
  rw [List.dropWhile_append_of_pos hall]
  simp

private theorem not_mem_takeWhile (stop : Char) (text : List Char) : stop ∉ text.takeWhile (· ≠ stop) := by
  intro h
  have hne := List.all_eq_true.mp List.all_takeWhile stop h
  simp at hne

end

private theorem read?_eq_some_iff {line : List Char} {anchored : Anchored} :
    read? line = some anchored ↔
      line = anchored.written ∧ '<' ∉ anchored.label ∧ '"' ∉ anchored.target ∧ '<' ∉ anchored.shown := by
  constructor
  · intro h
    obtain ⟨opened, hopened, h⟩ := Option.bind_eq_some_iff.mp h
    obtain ⟨inside, hinside, h⟩ := Option.bind_eq_some_iff.mp h
    rw [dropPrefix?_eq_some_iff] at hopened hinside
    split at h
    · next hend =>
      cases h
      refine ⟨?_, not_mem_takeWhile _ _, not_mem_takeWhile _ _, not_mem_takeWhile _ _⟩
      have hline : line = line.takeWhile (· ≠ '<') ++ ("<a href=\"".toList ++ opened) := by
        rw [← hopened, List.takeWhile_append_dropWhile]
      have htarget : opened = opened.takeWhile (· ≠ '"') ++ ("\">".toList ++ inside) := by
        rw [← hinside, List.takeWhile_append_dropWhile]
      have hshown : inside = inside.takeWhile (· ≠ '<') ++ "</a>".toList := by
        rw [← hend, List.takeWhile_append_dropWhile]
      simp only [written, List.append_assoc]
      rw [← hshown, ← htarget, ← hline]
    · cases h
  · rintro ⟨rfl, hlabel, htarget, hshown⟩
    -- what is left of the line behind each of the fixed words
    obtain ⟨inside, hinside⟩ : ∃ inside, inside = anchored.shown ++ '<' :: "/a>".toList := ⟨_, rfl⟩
    obtain ⟨opened, hopened⟩ : ∃ opened, opened = anchored.target ++ '"' :: '>' :: inside := ⟨_, rfl⟩
    have hwritten : anchored.written = anchored.label ++ '<' :: ("a href=\"".toList ++ opened) := by
      rw [hopened, hinside]
      simp [written]
    have hfirst : (anchored.written.dropWhile (· ≠ '<')).dropPrefix? "<a href=\"".toList = some opened := by
      rw [hwritten, dropWhile_stop hlabel, dropPrefix?_eq_some_iff]
      rfl
    have hsecond : (opened.dropWhile (· ≠ '"')).dropPrefix? "\">".toList = some inside := by
      rw [hopened, dropWhile_stop htarget, dropPrefix?_eq_some_iff]
      rfl
    have hend : inside.dropWhile (· ≠ '<') = "</a>".toList := by
      rw [hinside, dropWhile_stop hshown]
      rfl
    have hresult : read? anchored.written = if inside.dropWhile (· ≠ '<') = "</a>".toList then
        some ⟨anchored.written.takeWhile (· ≠ '<'), opened.takeWhile (· ≠ '"'), inside.takeWhile (· ≠ '<')⟩
        else none := by
      rw [read?, hfirst, Option.bind_eq_bind, Option.bind_some, hsecond, Option.bind_some]
    rw [hresult, if_pos hend, hwritten, takeWhile_stop hlabel, hopened, takeWhile_stop htarget, hinside,
      takeWhile_stop hshown]

/-- The signs that markup is made of. -/
def signs : List Char := ['"', '<', '>']

private theorem count_written {sign : Char} (h : sign ∈ signs) (anchored : Anchored) :
    anchored.written.count sign =
      2 + anchored.label.count sign + anchored.target.count sign + anchored.shown.count sign := by
  have hwords : signs.all fun sign =>
      "<a href=\"".toList.count sign + "\">".toList.count sign + "</a>".toList.count sign = 2 := by
    decide
  have htwo := of_decide_eq_true (List.all_eq_true.mp hwords sign h)
  simp only [written, List.count_append]
  omega

end Anchored

/-! ### Links -/

namespace Link

/-- What is shown of the link. -/
def anchor (link : Link) : Anchored :=
  ⟨link.label.toList, link.uri.toList, link.uri.toList⟩

/-- What stands in front of a link. -/
def labels : List String :=
  ["Uniform Resource Identifier: ", "CPS Pointer: ", "Admission Authority: Uniform Resource Identifier: ",
    "Third Person: Uniform Resource Identifier: "]

/-- Whether the links have the known labels. -/
def Labelled (links : List Link) : Prop := ∀ link ∈ links, link.label ∈ labels

private theorem layOut_eq {phrase : Phrase} {link : Link} (h : phrase.link? = some link) :
    (phrase.layOut true).toList = link.anchor.written := by
  obtain ⟨text, uri?⟩ := phrase
  cases uri? with
  | none => cases h
  | some uri =>
    cases h
    simp [Phrase.layOut, Phrase.anchor, anchor, Anchored.written]

variable {link : Link}

private theorem not_mem_label (h : link.label ∈ labels) {sign : Char} (hsign : sign ∈ Anchored.signs) :
    sign ∉ link.label.toList := by
  have hall : ∀ label ∈ labels, Anchored.signs.all fun sign => sign ∉ label.toList := by decide
  exact of_decide_eq_true (List.all_eq_true.mp (hall link.label h) sign hsign)

/-- The URI is found again where it has neither a quote nor an opening bracket. -/
theorem read?_anchor (h : link.label ∈ labels) :
    Anchored.read? link.anchor.written = some link.anchor ↔ '"' ∉ link.uri.toList ∧ '<' ∉ link.uri.toList := by
  rw [Anchored.read?_eq_some_iff]
  have hlabel : '<' ∉ link.anchor.label := not_mem_label h (by decide)
  exact ⟨fun hread => hread.2.2, fun huri => ⟨rfl, hlabel, huri⟩⟩

theorem count_anchor (h : link.label ∈ labels) {sign : Char} (hsign : sign ∈ Anchored.signs) :
    link.anchor.written.count sign = 2 + 2 * link.uri.toList.count sign := by
  have hlabel : link.anchor.label.count sign = 0 := List.count_eq_zero.mpr (not_mem_label h hsign)
  have hcount := Anchored.count_written hsign link.anchor
  rw [hlabel] at hcount
  rw [hcount, anchor]
  dsimp only
  omega

/-! ### Labels -/

namespace Labelled

private theorem nil : Labelled [] := nofun

private theorem append {front back : List Link} (hfront : Labelled front) (hback : Labelled back) :
    Labelled (front ++ back) := by
  intro link hlink
  exact (List.mem_append.mp hlink).elim (hfront link) (hback link)

private theorem flatMap {α : Type} {links : α → List Link} (h : ∀ item, Labelled (links item)) (items : List α) :
    Labelled (items.flatMap links) := by
  intro link hlink
  obtain ⟨item, -, hlink⟩ := List.mem_flatMap.mp hlink
  exact h item link hlink

private theorem linksRead {α : Type} {type : TaggedType α} {links : α → List Link} (h : ∀ value, Labelled (links value))
    (octets : List UInt8) : Labelled (type.linksRead links octets) := by
  unfold TaggedType.linksRead
  cases type.whole octets with
  | ok value => exact h value
  | error fault => exact nil

private theorem eq_of_link? {name : GeneralName} (h : name.link? = some link) :
    link.label = "Uniform Resource Identifier: " := by
  cases name with
  | uri target =>
    cases h
    rfl
  | _ => cases h

private theorem generalName (name : GeneralName) : Labelled name.link?.toList := by
  intro link hlink
  rw [eq_of_link? (Option.mem_toList.mp hlink)]
  exact .head _

private theorem generalNames (names : List GeneralName) : Labelled (GeneralName.links names) := by
  intro link hlink
  obtain ⟨name, -, hname⟩ := List.mem_filterMap.mp hlink
  rw [eq_of_link? hname]
  exact .head _

private theorem optional {α : Type} {links : α → List Link} (h : ∀ value, Labelled (links value)) (value? : Option α) :
    Labelled ((value?.map links).getD []) := by
  cases value? with
  | none => exact nil
  | some value => exact h value

private theorem accessDescription (description : AccessDescription) : Labelled description.links :=
  generalName description.location

private theorem nameConstraints (constraints : NameConstraints) : Labelled constraints.links := by
  have hsubtree : ∀ subtree : Subtree, Labelled subtree.links := fun subtree => generalName subtree.base
  exact append (flatMap hsubtree _) (flatMap hsubtree _)

private theorem pointName (name : DistributionPointName) : Labelled name.links := by
  cases name with
  | full names => exact generalNames names
  | relative name => exact nil

private theorem distributionPoint (point : DistributionPoint) : Labelled point.links :=
  append (optional pointName point.name?) (generalNames _)

private theorem qualifiedStatement (statement : QualifiedStatement) : Labelled statement.links := by
  cases statement with
  | edition second information? =>
    cases information? with
    | none => exact nil
    | some information => exact generalNames _
  | _ => exact nil

private theorem admissionAuthority (authority? : Option GeneralName) : Labelled (admissionLinks authority?) := by
  intro link hlink
  obtain ⟨unlabelled, hunlabelled, rfl⟩ := List.mem_map.mp hlink
  obtain ⟨name, -, hname⟩ := List.mem_filterMap.mp hunlabelled
  simp [Link.labelled, eq_of_link? hname, labels]

private theorem admission (admission : Admission) : Labelled admission.links :=
  append (admissionAuthority admission.authority?)
    (flatMap (fun entry : AdmissionEntry => admissionAuthority entry.authority?) admission.entries)

private theorem procuration (procuration : Procuration) : Labelled procuration.links := by
  cases h : procuration.signingFor with
  | person name =>
    intro link hlink
    rw [Procuration.links, h] at hlink
    obtain ⟨unlabelled, hname, rfl⟩ := Option.map_eq_some_iff.mp (Option.mem_toList.mp hlink)
    simp [Link.labelled, eq_of_link? hname, labels]
  | certificate issuer serial =>
    rw [Procuration.links, h]
    exact generalNames issuer

private theorem policyQualifier (qualifier : PolicyQualifier) : Labelled qualifier.link?.toList := by
  cases qualifier with
  | pointer uri =>
    intro link hlink
    rw [List.mem_singleton.mp hlink]
    simp [labels]
  | _ => exact nil

private theorem policyInformation (information : PolicyInformation) : Labelled information.links :=
  flatMap policyQualifier _

end Labelled

end Link

/-- The labels of all links of a value are known. -/
theorem ExtensionType.label_mem_labels (type : ExtensionType) (octets : List UInt8) :
    ∀ link ∈ type.links octets, link.label ∈ Link.labels := by
  change Link.Labelled (type.links octets)
  cases type with
  | authorityInformationAccess | subjectInformationAccess =>
    exact .linksRead (.flatMap .accessDescription) octets
  | subjectAlternativeName | issuerAlternativeName | certificateIssuer => exact .linksRead .generalNames octets
  | issuingDistributionPoint =>
    exact .linksRead (fun point : IssuingDistributionPoint => .optional .pointName point.name?) octets
  | nameConstraints => exact .linksRead .nameConstraints octets
  | crlDistributionPoints | freshestCrl => exact .linksRead (.flatMap .distributionPoint) octets
  | certificatePolicies => exact .linksRead (.flatMap .policyInformation) octets
  | authorityKeyIdentifier => exact .linksRead (fun _ => .generalNames _) octets
  | qcStatements => exact .linksRead (.flatMap .qualifiedStatement) octets
  | procuration => exact .linksRead .procuration octets
  | admission => exact .linksRead .admission octets
  | _ => exact .nil

/-! ### Values -/

/-- The lines of a body; a dump has none. -/
def ExtensionBody.lines : ExtensionBody → Outline
  | .dump _ => []
  | .outline lines => lines

private theorem ExtensionType.links_of_dump {type : ExtensionType} (h : type.presentation = .dump)
    (octets : List UInt8) :
    type.links octets = [] := by
  cases type <;> first | rfl | cases h

namespace Extension

variable {extension : Extension}

private theorem links_of_dump (h : extension.presentation = .dump) (octets : List UInt8) :
    extension.links octets = [] := by
  unfold links
  cases htype : extension.type? with
  | none => rfl
  | some type =>
    rw [presentation, htype] at h
    exact ExtensionType.links_of_dump h octets

theorem label_mem_labels (extension : Extension) (octets : List UInt8) :
    ∀ link ∈ extension.links octets, link.label ∈ Link.labels := by
  unfold links
  cases extension.type? with
  | none => exact nofun
  | some type => exact type.label_mem_labels octets

private theorem links_body {octets : List UInt8} {body : ExtensionBody}
    (h : extension.presentation.body octets = .ok body) :
    body.lines.links = extension.links octets := by
  cases body with
  | dump shown =>
    rw [links_of_dump (Presentation.body_eq_dump h).1]
    rfl
  | outline lines => exact extension.shows octets lines h

/-- With links, each URI among the general names and each pointer among the policy qualifiers of a value is shown as an
anchor behind its label, and reading the line as markup gives the URI back, as target and as text, exactly where it has
neither a quote nor an opening angle bracket. Each quote and each angle bracket in the URI stands in the line twice,
besides the two of the anchor. -/
theorem links_anchored {indent text : String} (h : extension.text ⟨true, indent⟩ = .ok text) :
    ∃ octets body, octetString.whole extension.value = .ok octets ∧ extension.presentation.body octets = .ok body ∧
      text = body.layOut ⟨true, indent⟩ ∧ body.lines.links = extension.links octets ∧
      ∀ line ∈ body.lines, ∀ link, line.content.link? = some link →
        line.content.layOut true = link.label ++ Phrase.anchor link.uri ∧
        (Anchored.read? (line.content.layOut true).toList = some link.anchor ↔
          '"' ∉ link.uri.toList ∧ '<' ∉ link.uri.toList) ∧
        ∀ sign ∈ ['"', '<', '>'],
          (line.content.layOut true).toList.count sign = 2 + 2 * link.uri.toList.count sign := by
  cases hvalue : octetString.whole extension.value with
  | error fault =>
    rw [Extension.text, Extension.body, hvalue] at h
    cases h
  | ok octets =>
    rw [text_eq hvalue] at h
    obtain ⟨body, hbody, rfl⟩ := Reader.map_eq_ok h
    refine ⟨octets, body, rfl, hbody, rfl, links_body hbody, ?_⟩
    intro line hline link hlink
    have hlabel : link.label ∈ Link.labels := by
      refine extension.label_mem_labels octets link ?_
      rw [← links_body hbody]
      exact List.mem_filterMap.mpr ⟨line, hline, hlink⟩
    have hwritten := Link.layOut_eq hlink
    refine ⟨?_, ?_, ?_⟩
    · apply String.toList_inj.mp
      rw [hwritten]
      simp [Link.anchor, Anchored.written, Phrase.anchor]
    · rw [hwritten]
      exact Link.read?_anchor hlabel
    · intro sign hsign
      rw [hwritten]
      exact Link.count_anchor hlabel hsign

/-- A policy with a pointer to a practice statement of three characters. -/
def pointerSample (a b c : UInt8) : Extension :=
  ⟨"2.5.29.32", false, [4, 27, 0x30, 25, 0x30, 23, 6, 2, 0x2A, 3, 0x30, 17, 0x30, 15,
    6, 8, 0x2B, 6, 1, 5, 5, 7, 2, 1, 0x16, 3, a, b, c]⟩

/-- The URI of a pointer, with a closing bracket at its end, is found again. -/
theorem links_anchored_closingBracket :
    let extension := pointerSample 0x75 0x3A 0x3E
    let shown := "CPS Pointer: <a href=\"u:>\">u:></a>"
    extension.text ⟨true, "  "⟩ = .ok ("Certificate Policy [1]:\n  Policy Identifier: 1.2.3\n" ++
      "  Policy Qualifier Information [1,1]:\n    " ++ shown ++ "\n") ∧
      extension.links (extension.value.drop 2) = [⟨"CPS Pointer: ", "u:>"⟩] ∧
      Anchored.read? shown.toList = some ⟨"CPS Pointer: ".toList, "u:>".toList, "u:>".toList⟩ ∧
      shown.toList.count '>' = 4 := by
  intro extension shown
  let lines : Outline := [⟨0, .plain "Certificate Policy [1]:"⟩, ⟨1, .plain "Policy Identifier: 1.2.3"⟩,
    ⟨1, .plain "Policy Qualifier Information [1,1]:"⟩, ⟨2, .ofUri "CPS Pointer: " "u:>"⟩]
  have hvalue : octetString.whole extension.value = .ok (extension.value.drop 2) := rfl
  have hread : extension.presentation.body (extension.value.drop 2) = .ok (.outline lines) := rfl
  have htext : extension.text ⟨true, "  "⟩ = .ok ("Certificate Policy [1]:\n  Policy Identifier: 1.2.3\n" ++
      "  Policy Qualifier Information [1,1]:\n    " ++ shown ++ "\n") := rfl
  obtain ⟨octets, body, hoctets, hbody, -, hlinks, hall⟩ := links_anchored htext
  obtain rfl := Except.ok.inj (hvalue.symm.trans hoctets)
  obtain rfl := Except.ok.inj (hread.symm.trans hbody)
  obtain ⟨-, hanchor, hcount⟩ := hall ⟨2, .ofUri "CPS Pointer: " "u:>"⟩ (by decide) ⟨"CPS Pointer: ", "u:>"⟩ rfl
  exact ⟨htext, hlinks.symm, hanchor.mpr (by decide), hcount '>' (by decide)⟩

/-- A URI with quotes in a general name, and one with brackets in a policy qualifier: the first ends its target and adds
an attribute to the anchor, the second puts another element into it. -/
theorem links_anchored_injection :
    let named : Extension := ⟨"2.5.29.17", false, [4, 10, 0x30, 8, 0x86, 6, 0x75, 0x22, 0x20, 0x78, 0x3D, 0x22]⟩
    let name := "Uniform Resource Identifier: <a href=\"u\" x=\"\">u\" x=\"</a>"
    let pointer := "CPS Pointer: <a href=\"<i>\"><i></a>"
    named.links (named.value.drop 2) = [⟨"Uniform Resource Identifier: ", "u\" x=\""⟩] ∧
      named.text ⟨true, "    "⟩ = .ok (name ++ "\n") ∧ Anchored.read? name.toList = none ∧ name.toList.count '"' = 6 ∧
      (pointerSample 0x3C 0x69 0x3E).text ⟨true, "  "⟩ = .ok ("Certificate Policy [1]:\n  Policy Identifier: 1.2.3\n" ++
        "  Policy Qualifier Information [1,1]:\n    " ++ pointer ++ "\n") ∧
      Anchored.read? pointer.toList = none ∧ pointer.toList.count '<' = 4 ∧ pointer.toList.count '>' = 4 := by
  decide

end Extension

end CertExtensions
