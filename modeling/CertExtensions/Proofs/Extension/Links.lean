import CertExtensions.Extension.Presentation

/-!
# The links of a value

Only two things in a value can become links: the URIs among its general names, and the pointers to practice statements
among its policy qualifiers. Each of them stands at the end of a line behind a label of its own, and no other line ends
in a URI. So the links of an outline are those of the value that it shows, in the order of the value. For each type of
values `links` lists them and `links_outline` or `links_listOutline` says so; values without `links` have none.
-/

namespace CertExtensions

open Asn1

/-! ### Outlines -/

/-- A URI that can be shown as a link, with the text in front of it. -/
structure Link where
  label : String
  uri : String
  deriving DecidableEq, Repr

namespace Link

/-- The link with one more label in front. -/
def labelled (label : String) (link : Link) : Link :=
  { link with label := label ++ link.label }

end Link

namespace Phrase

def link? (phrase : Phrase) : Option Link :=
  phrase.uri?.map (Link.mk phrase.text)

@[simp] theorem link?_plain (text : String) : (plain text).link? = none := rfl

@[simp] theorem link?_labelled (label : String) (phrase : Phrase) :
    (phrase.labelled label).link? = phrase.link?.map (Link.labelled label) := by
  cases h : phrase.uri? <;> simp [link?, labelled, Link.labelled, h]

end Phrase

namespace Outline

/-- The links at the ends of lines. -/
def links (lines : Outline) : List Link :=
  lines.filterMap (·.content.link?)

@[simp] theorem links_nil : links [] = [] := rfl

@[simp] theorem links_append (front back : Outline) : (front ++ back).links = front.links ++ back.links :=
  List.filterMap_append

@[simp] theorem links_line (depth : Nat) (text : String) : (line depth text).links = [] := rfl

@[simp] theorem links_item (depth : Nat) (content : Phrase) : (item depth content).links = content.link?.toList := by
  cases h : content.link? <;> simp [links, item, h]

@[simp] theorem links_lines (depth : Nat) (texts : List String) : (lines depth texts).links = [] := by
  simp [links, lines]

@[simp] theorem links_field? {α : Type} (depth : Nat) (label : String) (text : α → String) (value? : Option α) :
    (field? depth label text value?).links = [] := by
  cases value? <;> rfl

private theorem links_flatMap {α : Type} {outline : α → Outline} {links : α → List Link}
    (h : ∀ item, (outline item).links = links item) (items : List α) :
    Outline.links (items.flatMap outline) = items.flatMap links := by
  induction items with
  | nil => rfl
  | cons item items ih => simp [h, ih]

/-- The numbers do not matter. -/
private theorem links_numbered {α : Type} {block : Nat → α → Outline} {links : α → List Link}
    (h : ∀ number item, (block number item).links = links item) (items : List α) :
    (numbered block items).links = items.flatMap links := by
  have hitems := links_flatMap (fun entry : α × Nat => h entry.2 entry.1) (items.zipIdx 1)
  have hfirst : (items.zipIdx 1).flatMap (fun entry => links entry.1) = items.flatMap links := by
    rw [← List.flatMap_map, List.zipIdx_map_fst]
  exact hitems.trans hfirst

private theorem links_flatMap_plain {α : Type} {outline : α → Outline} (h : ∀ item, (outline item).links = [])
    (items : List α) : Outline.links (items.flatMap outline) = [] := by
  rw [links_flatMap h]
  simp

private theorem links_numbered_plain {α : Type} {block : Nat → α → Outline}
    (h : ∀ number item, (block number item).links = []) (items : List α) : (numbered block items).links = [] := by
  rw [links_numbered h]
  simp

end Outline

open Outline

/-! ### Names -/

namespace GeneralName

/-- The link that a name becomes if it is a URI. -/
def link? : GeneralName → Option Link
  | .uri target => some ⟨"Uniform Resource Identifier: ", target⟩
  | _ => none

/-- The links among the names. -/
def links (names : List GeneralName) : List Link :=
  names.filterMap link?

@[simp] theorem link?_phrase (name : GeneralName) : name.phrase.link? = name.link? := by
  cases name with
  | ediParty assigner? party => cases assigner? <;> rfl
  | _ => rfl

@[simp] theorem links_outline (depth : Nat) (names : List GeneralName) : (outline depth names).links = links names := by
  induction names with
  | nil => rfl
  | cons name names ih =>
    have hcons : outline depth (name :: names) = item depth name.phrase ++ outline depth names := rfl
    rw [hcons, links_append, ih, links_item, link?_phrase]
    cases h : name.link? <;> simp [links, h]

end GeneralName

/-! ### Values with names -/

namespace AccessDescription

def links (description : AccessDescription) : List Link :=
  description.location.link?.toList

theorem links_listOutline (title : String) (descriptions : List AccessDescription) :
    (listOutline title descriptions).links = descriptions.flatMap links := by
  apply links_numbered
  intro number description
  simp [outline, links]

end AccessDescription

namespace Subtree

def links (subtree : Subtree) : List Link :=
  subtree.base.link?.toList

theorem links_listOutline (kind : String) (subtrees? : Option (List Subtree)) :
    (listOutline kind subtrees?).links = (subtrees?.getD []).flatMap links := by
  cases subtrees? with
  | none => rfl
  | some subtrees =>
    have hitems : (numbered (outline kind) subtrees).links = subtrees.flatMap links := by
      apply links_numbered
      intro number subtree
      simp [outline, links]
    simp [listOutline, hitems]

end Subtree

namespace NameConstraints

def links (constraints : NameConstraints) : List Link :=
  (constraints.permitted?.getD []).flatMap Subtree.links ++ (constraints.excluded?.getD []).flatMap Subtree.links

theorem links_outline (constraints : NameConstraints) : constraints.outline.links = constraints.links := by
  simp [outline, links, Subtree.links_listOutline]

end NameConstraints

namespace AuthorityKeyIdentifier

def links (id : AuthorityKeyIdentifier) : List Link :=
  GeneralName.links (id.issuer?.getD [])

theorem links_outline (id : AuthorityKeyIdentifier) : id.outline.links = id.links := by
  cases h : id.issuer? <;> simp [outline, links, h, GeneralName.links]

end AuthorityKeyIdentifier

namespace DistributionPointName

def links : DistributionPointName → List Link
  | .full names => GeneralName.links names
  | .relative _ => []

theorem links_outline (depth : Nat) (name : DistributionPointName) : (name.outline depth).links = name.links := by
  cases name <;> simp [outline, links]

end DistributionPointName

namespace DistributionPoint

def links (point : DistributionPoint) : List Link :=
  (point.name?.map DistributionPointName.links).getD [] ++ GeneralName.links (point.issuer?.getD [])

theorem links_outline (title : String) (number : Nat) (point : DistributionPoint) :
    (outline title number point).links = point.links := by
  rcases point with ⟨_ | name, _ | reasons, _ | names⟩ <;>
    simp [outline, links, DistributionPointName.links_outline, GeneralName.links]

theorem links_listOutline (title : String) (points : List DistributionPoint) :
    (listOutline title points).links = points.flatMap links :=
  links_numbered (links_outline title) points

end DistributionPoint

namespace IssuingDistributionPoint

def links (point : IssuingDistributionPoint) : List Link :=
  (point.name?.map DistributionPointName.links).getD []

theorem links_outline (point : IssuingDistributionPoint) : point.outline.links = point.links := by
  cases hname : point.name? <;> cases hreasons : point.someReasons? <;>
    simp [outline, links, hname, hreasons, DistributionPointName.links_outline]

end IssuingDistributionPoint

namespace SemanticsInformation

def links (information : SemanticsInformation) : List Link :=
  GeneralName.links (information.authorities?.getD [])

theorem links_outline (information : SemanticsInformation) : information.outline.links = information.links := by
  cases h : information.authorities? <;> simp [outline, links, h, GeneralName.links]

end SemanticsInformation

namespace MonetaryValue

theorem links_outline (depth : Nat) (value : MonetaryValue) : (value.outline depth).links = [] := by
  simp [outline]

end MonetaryValue

namespace QualifiedStatement

def links : QualifiedStatement → List Link
  | .edition _ (some information) => information.links
  | _ => []

theorem links_outline (number : Nat) (statement : QualifiedStatement) :
    (statement.outline number).links = statement.links := by
  cases statement with
  | edition second information? =>
    cases information? <;> simp [outline, bodyOutline, links, SemanticsInformation.links_outline]
  | _ => simp [outline, bodyOutline, links, MonetaryValue.links_outline]

theorem links_listOutline (statements : List QualifiedStatement) :
    (listOutline statements).links = statements.flatMap links :=
  links_numbered links_outline statements

end QualifiedStatement

namespace NamingAuthority

theorem links_outline (depth : Nat) (authority : NamingAuthority) : (authority.outline depth).links = [] := by
  simp [outline]

end NamingAuthority

namespace ProfessionInfo

theorem links_outline (info : ProfessionInfo) : info.outline.links = [] := by
  cases h : info.naming? <;> simp [outline, h, NamingAuthority.links_outline]

end ProfessionInfo

/-- The link of an authority that admits, if there is one and its name is a URI. -/
def admissionLinks (authority? : Option GeneralName) : List Link :=
  (GeneralName.links authority?.toList).map (Link.labelled "Admission Authority: ")

private theorem links_admissionAuthority (depth : Nat) (authority? : Option GeneralName) :
    (admissionAuthority depth authority?).links = admissionLinks authority? := by
  cases authority? with
  | none => rfl
  | some name => cases h : name.link? <;> simp [admissionAuthority, admissionLinks, GeneralName.links, h]

namespace AdmissionEntry

def links (entry : AdmissionEntry) : List Link :=
  admissionLinks entry.authority?

theorem links_outline (number : Nat) (entry : AdmissionEntry) : (entry.outline number).links = entry.links := by
  have hprofessions := links_flatMap_plain ProfessionInfo.links_outline entry.professions
  cases h : entry.naming? <;>
    simp [outline, links, h, hprofessions, links_admissionAuthority, NamingAuthority.links_outline]

end AdmissionEntry

namespace Admission

def links (admission : Admission) : List Link :=
  admissionLinks admission.authority? ++ admission.entries.flatMap AdmissionEntry.links

theorem links_outline (admission : Admission) : admission.outline.links = admission.links := by
  simp [outline, links, links_admissionAuthority, links_numbered AdmissionEntry.links_outline]

end Admission

namespace SigningFor

def links : SigningFor → List Link
  | .person name => (name.link?.map (Link.labelled "Third Person: ")).toList
  | .certificate issuer _ => GeneralName.links issuer

theorem links_outline (signingFor : SigningFor) : signingFor.outline.links = signingFor.links := by
  cases signingFor <;> simp [outline, links]

end SigningFor

namespace Procuration

def links (procuration : Procuration) : List Link :=
  procuration.signingFor.links

theorem links_outline (procuration : Procuration) : procuration.outline.links = procuration.links := by
  simp [outline, links, SigningFor.links_outline]

end Procuration

/-! ### Policies -/

namespace PolicyQualifier

/-- The link that a qualifier becomes if it is a pointer to a practice statement. -/
def link? : PolicyQualifier → Option Link
  | .pointer uri => some ⟨"CPS Pointer: ", uri⟩
  | _ => none

theorem links_outline (qualifier : PolicyQualifier) : qualifier.outline.links = qualifier.link?.toList := by
  cases qualifier with
  | pointer uri => rfl
  | notice shown =>
    cases h : shown.reference? <;> simp [outline, link?, UserNotice.outline, NoticeReference.outline, h]
  | other id elements => by_cases h : elements.isEmpty <;> simp [outline, link?, h]

end PolicyQualifier

namespace PolicyInformation

def links (information : PolicyInformation) : List Link :=
  (information.qualifiers?.getD []).flatMap fun qualifier => qualifier.link?.toList

theorem links_outline (number : Nat) (information : PolicyInformation) :
    (information.outline number).links = information.links := by
  have hqualifiers : (numbered (qualifierOutline number) (information.qualifiers?.getD [])).links =
      information.links := by
    apply links_numbered
    intro index qualifier
    simp [qualifierOutline, PolicyQualifier.links_outline]
  simp [outline, hqualifiers]

theorem links_listOutline (policies : List PolicyInformation) : (listOutline policies).links = policies.flatMap links :=
  links_numbered links_outline policies

end PolicyInformation

/-! ### Values without URIs -/

theorem DirectoryAttribute.links_listOutline (attrs : List DirectoryAttribute) : (listOutline attrs).links = [] :=
  links_flatMap_plain (fun _ => links_lines 0 _) attrs

theorem BasicConstraints.links_outline (constraints : BasicConstraints) : constraints.outline.links = [] := by
  cases h : constraints.pathLength? <;> simp [outline, h]

theorem ReasonCode.links_outline (code : Int) : (outline code).links = [] := by
  unfold outline
  cases RevocationReason.ofCode? code <;> simp

theorem PolicyMapping.links_listOutline (mappings : List PolicyMapping) : (listOutline mappings).links = [] := by
  apply links_numbered_plain
  intro number mapping
  simp [outline]

theorem BiometricData.links_listOutline (data : List BiometricData) : (listOutline data).links = [] := by
  apply links_numbered_plain
  intro number item
  simp [outline]

theorem DeclarationOfMajority.links_outline (declaration : DeclarationOfMajority) : declaration.outline.links = [] := by
  cases declaration <;> simp [outline]

theorem MailCapability.links_listOutline (capabilities : List MailCapability) :
    (listOutline capabilities).links = [] := by
  apply links_numbered_plain
  intro number capability
  by_cases h : capability.parameters.isEmpty <;> simp [outline, h]

end CertExtensions
