import CertExtensions.Proofs.Extension.NameLines
import CertExtensions.Proofs.Extension.Rendering

/-!
# Lines of records

Line by line what is shown of a record with optional fields: the lines of each field that is there, under its label, and
what stands in place of a field that is missing, which is nothing in most records. They are the lines of the outline of
the record (`contents_outline`).
-/

namespace CertExtensions

open Asn1

/-! ### Key identifiers -/

namespace AuthorityKeyIdentifier

def lines (linkUris : Bool) (id : AuthorityKeyIdentifier) : List (Nat × String) :=
  (id.keyIdentifier?.toList.map fun key => (0, "Key Identifier: " ++ Hex.numeral key)) ++
  (id.issuer?.toList.flatMap fun names =>
    (0, "Certificate Issuer:") :: names.map fun name => (1, name.display linkUris)) ++
  id.serial?.toList.map fun serial => (0, "Certificate Serial Number: " ++ Hex.numeral serial)

theorem contents_outline (linkUris : Bool) (id : AuthorityKeyIdentifier) :
    id.outline.contents linkUris = id.lines linkUris := by
  obtain ⟨key?, issuer?, serial?⟩ := id
  cases issuer? <;> simp [outline, lines, GeneralName.contents_outline]

end AuthorityKeyIdentifier

/-! ### Distribution points -/

namespace DistributionPointName

def lines (linkUris : Bool) (depth : Nat) : DistributionPointName → List (Nat × String)
  | .full names =>
    [(depth, "Distribution Point Name:"), (depth + 1, "Full Name:")] ++
    names.map fun name => (depth + 2, name.display linkUris)
  | .relative attrs =>
    [(depth, "Distribution Point Name:"), (depth + 1, "Name Relative to CRL Issuer:")] ++
    attrs.map fun attr => (depth + 2, Attribute.keyword attr.type ++ "=" ++ Attribute.valueText attr.type attr.value)

theorem contents_outline (linkUris : Bool) (depth : Nat) (name : DistributionPointName) :
    (name.outline depth).contents linkUris = name.lines linkUris depth := by
  cases name <;> simp [outline, lines, GeneralName.contents_outline]

end DistributionPointName

/-- The lines of reasons, a line for each of them that is set. -/
def ReasonFlags.lines (depth : Nat) (reasons : Bits) : List (Nat × String) :=
  (reasons.named names).map fun name => (depth, name)

namespace DistributionPoint

/-- The lines of the only point of a list. -/
def lines (title : String) (linkUris : Bool) (point : DistributionPoint) : List (Nat × String) :=
  [(0, title ++ " [1]:")] ++
  point.name?.toList.flatMap (DistributionPointName.lines linkUris 1) ++
  (point.reasons?.toList.flatMap fun reasons => (1, "Reasons:") :: ReasonFlags.lines 2 reasons) ++
  point.issuer?.toList.flatMap fun names =>
    (1, "CRL Issuer:") :: names.map fun name => (2, name.display linkUris)

theorem contents_outline (title : String) (linkUris : Bool) (point : DistributionPoint) :
    (point.outline title 1).contents linkUris = point.lines title linkUris := by
  have htitle : title ++ " [" ++ toString 1 ++ "]:" = title ++ " [1]:" := by
    rw [String.append_assoc, String.append_assoc]
    rfl
  obtain ⟨name?, reasons?, issuer?⟩ := point
  rw [outline, htitle]
  cases name? <;> cases reasons? <;> cases issuer? <;>
    simp [lines, DistributionPointName.contents_outline, ReasonFlags.lines, GeneralName.contents_outline]

end DistributionPoint

namespace IssuingDistributionPoint

/-- Of a truth value there is a line also if it is missing. -/
def lines (linkUris : Bool) (point : IssuingDistributionPoint) : List (Nat × String) :=
  point.name?.toList.flatMap (DistributionPointName.lines linkUris 0) ++
  [(0, "Only Contains User Certificates: " ++ toString point.userCertificates),
    (0, "Only Contains CA Certificates: " ++ toString point.authorityCertificates)] ++
  (point.someReasons?.toList.flatMap fun reasons => (0, "Only Some Reasons:") :: ReasonFlags.lines 1 reasons) ++
  [(0, "Indirect CRL: " ++ toString point.indirect),
    (0, "Only Contains Attribute Certificates: " ++ toString point.attributeCertificates)]

theorem contents_outline (linkUris : Bool) (point : IssuingDistributionPoint) :
    point.outline.contents linkUris = point.lines linkUris := by
  obtain ⟨name?, users, authorities, reasons?, indirect, attributes⟩ := point
  cases name? <;> cases reasons? <;>
    simp [outline, lines, DistributionPointName.contents_outline, ReasonFlags.lines]

end IssuingDistributionPoint

/-! ### Constraints -/

namespace Subtree

def lines (kind : String) (linkUris : Bool) (i : Nat) (subtree : Subtree) : List (Nat × String) :=
  [(1, kind ++ " Subtree [" ++ toString (i + 1) ++ "]:"), (2, "Base:"), (3, subtree.base.display linkUris),
    (2, "Minimum: " ++ toString subtree.minimum)] ++
  subtree.maximum?.toList.map fun maximum => (2, "Maximum: " ++ toString maximum)

/-- The lines of the subtrees of a kind, or that there are none. -/
def listLines (kind : String) (linkUris : Bool) : Option (List Subtree) → List (Nat × String)
  | none => [(0, kind ++ " Subtrees: No value")]
  | some subtrees => (0, kind ++ " Subtrees:") :: (subtrees.mapIdx (lines kind linkUris)).flatten

theorem contents_outline (kind : String) (linkUris : Bool) (i : Nat) (subtree : Subtree) :
    (subtree.outline kind (i + 1)).contents linkUris = subtree.lines kind linkUris i := by
  simp [outline, lines, GeneralName.display]

private theorem contents_listOutline (kind : String) (linkUris : Bool) (subtrees? : Option (List Subtree)) :
    (listOutline kind subtrees?).contents linkUris = listLines kind linkUris subtrees? := by
  cases subtrees? with
  | none => rfl
  | some subtrees => simp [listOutline, listLines, contents_outline]

end Subtree

namespace NameConstraints

def lines (linkUris : Bool) (constraints : NameConstraints) : List (Nat × String) :=
  Subtree.listLines "Permitted" linkUris constraints.permitted? ++
  Subtree.listLines "Excluded" linkUris constraints.excluded?

theorem contents_outline (linkUris : Bool) (constraints : NameConstraints) :
    constraints.outline.contents linkUris = constraints.lines linkUris := by
  simp [outline, lines, Subtree.contents_listOutline]

end NameConstraints

namespace PolicyConstraints

def lines (constraints : PolicyConstraints) : List (Nat × String) :=
  (constraints.requireExplicit?.toList.map fun n => (0, "Require Explicit Policy: " ++ toString n)) ++
  constraints.inhibitMapping?.toList.map fun n => (0, "Inhibit Policy Mapping: " ++ toString n)

theorem contents_outline (linkUris : Bool) (constraints : PolicyConstraints) :
    constraints.outline.contents linkUris = constraints.lines := by
  simp [outline, lines]

end PolicyConstraints

namespace PrivateKeyUsagePeriod

/-- There is a line for each end of the period. -/
def lines (period : PrivateKeyUsagePeriod) : List (Nat × String) :=
  [(0, "Not Before: " ++ (period.notBefore?.map Moment.text).getD "No value"),
    (0, "Not After: " ++ (period.notAfter?.map Moment.text).getD "No value")]

theorem contents_outline (linkUris : Bool) (period : PrivateKeyUsagePeriod) :
    period.outline.contents linkUris = period.lines := by
  obtain ⟨notBefore?, notAfter?⟩ := period
  cases notBefore? <;> cases notAfter? <;> rfl

end PrivateKeyUsagePeriod

end CertExtensions
