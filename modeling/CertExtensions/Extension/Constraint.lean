import CertExtensions.GeneralName

/-!
# Constraints

Extensions that limit a certification path, the names in it, the policies that hold for it, or the time in which
a key may be used.
-/

namespace CertExtensions

open Asn1 Outline

/-! ### Paths -/

/-- Whether the subject may issue certificates, and how many may follow in a path. -/
structure BasicConstraints where
  isAuthority : Bool
  pathLength? : Option Nat
  deriving DecidableEq, Repr

namespace BasicConstraints

def taggedType : TaggedType BasicConstraints :=
  .sequence do
    let isAuthority? ← boolean.optional
    let pathLength? ← uint64.optional
    return ⟨isAuthority?.getD false, pathLength?⟩

def outline (constraints : BasicConstraints) : Outline :=
  line 0 (if constraints.isAuthority then "Subject is a CA" else "Subject is not a CA") ++
  match constraints.pathLength? with
  | some n => line 0 ("Path length constraint = " ++ toString n)
  | none => line 0 "No path length constraint"

end BasicConstraints

/-! ### Names -/

/-- A tree of names below a base, between two depths. -/
structure Subtree where
  base : GeneralName
  minimum : Nat
  maximum? : Option Nat
  deriving DecidableEq, Repr

namespace Subtree

def taggedType : TaggedType Subtree :=
  .sequence do
    let base ← GeneralName.schema.required
    let minimum? ← (uint64.implicit (.context 0)).optional
    let maximum? ← (uint64.implicit (.context 1)).optional
    return ⟨base, minimum?.getD 0, maximum?⟩

def outline (kind : String) (number : Nat) (subtree : Subtree) : Outline :=
  line 1 (kind ++ " Subtree [" ++ toString number ++ "]:") ++
  line 2 "Base:" ++
  item 3 subtree.base.phrase ++
  line 2 ("Minimum: " ++ toString subtree.minimum) ++
  field? 2 "Maximum: " toString subtree.maximum?

/-- The subtrees of a kind, if they are given. -/
def listOutline (kind : String) : Option (List Subtree) → Outline
  | none => line 0 (kind ++ " Subtrees: No value")
  | some subtrees =>
    line 0 (kind ++ " Subtrees:") ++ numbered (outline kind) subtrees

end Subtree

/-- The names that the subjects of a path may and may not have. -/
structure NameConstraints where
  permitted? : Option (List Subtree)
  excluded? : Option (List Subtree)
  deriving DecidableEq, Repr

namespace NameConstraints

def taggedType : TaggedType NameConstraints :=
  .sequence do
    let subtrees : TaggedType (List Subtree) := .sequenceOf Subtree.taggedType.schema
    let permitted? ← (subtrees.implicit (.context 0)).optional
    let excluded? ← (subtrees.implicit (.context 1)).optional
    return ⟨permitted?, excluded?⟩

def outline (constraints : NameConstraints) : Outline :=
  Subtree.listOutline "Permitted" constraints.permitted? ++
  Subtree.listOutline "Excluded" constraints.excluded?

end NameConstraints

/-! ### Policies -/

/-- How many certificates may follow until a policy is required, and until policies are no longer mapped. -/
structure PolicyConstraints where
  requireExplicit? : Option Nat
  inhibitMapping? : Option Nat
  deriving DecidableEq, Repr

namespace PolicyConstraints

def taggedType : TaggedType PolicyConstraints :=
  .sequence do
    let requireExplicit? ← (uint64.implicit (.context 0)).optional
    let inhibitMapping? ← (uint64.implicit (.context 1)).optional
    return ⟨requireExplicit?, inhibitMapping?⟩

def outline (constraints : PolicyConstraints) : Outline :=
  field? 0 "Require Explicit Policy: " toString constraints.requireExplicit? ++
  field? 0 "Inhibit Policy Mapping: " toString constraints.inhibitMapping?

end PolicyConstraints

namespace InhibitAnyPolicy

/-- How many certificates may follow until the wildcard policy no longer counts. -/
def outline (skip : Nat) : Outline :=
  line 0 ("Skip Certs: " ++ toString skip)

end InhibitAnyPolicy

/-! ### Times -/

/-- The time in which a private key may be used. -/
structure PrivateKeyUsagePeriod where
  notBefore? : Option Moment
  notAfter? : Option Moment
  deriving DecidableEq, Repr

namespace PrivateKeyUsagePeriod

def taggedType : TaggedType PrivateKeyUsagePeriod :=
  .sequence do
    let notBefore? ← (generalizedTime.implicit (.context 0)).optional
    let notAfter? ← (generalizedTime.implicit (.context 1)).optional
    return ⟨notBefore?, notAfter?⟩

/-- The text of an end of the period. -/
def endText : Option Moment → String
  | some moment => moment.text
  | none => "No value"

def outline (period : PrivateKeyUsagePeriod) : Outline :=
  line 0 ("Not Before: " ++ endText period.notBefore?) ++
  line 0 ("Not After: " ++ endText period.notAfter?)

end PrivateKeyUsagePeriod

end CertExtensions
