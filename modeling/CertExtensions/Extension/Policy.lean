import CertExtensions.GeneralName

/-!
# Certificate policies

The policies under which a certificate is issued, each with qualifiers, and mappings between the policies of two
domains.
-/

namespace CertExtensions

open Asn1 Outline

/-- A reference to numbered notices of an organization. -/
structure NoticeReference where
  organization : String
  numbers : List Int
  deriving DecidableEq, Repr

/-- A notice that is shown to the user of a certificate. -/
structure UserNotice where
  reference? : Option NoticeReference
  text? : Option String
  deriving DecidableEq, Repr

/-- A qualifier of a policy: a pointer to a practice statement, a notice, or anything that another identifier
tells, with the encodings of the elements behind it. -/
inductive PolicyQualifier where
  | pointer (uri : String)
  | notice (shown : UserNotice)
  | other (id : ObjectId) (elements : List UInt8)
  deriving DecidableEq, Repr

structure PolicyInformation where
  policy : ObjectId
  qualifiers? : Option (List PolicyQualifier)
  deriving DecidableEq, Repr

/-! ### Reading -/

def NoticeReference.taggedType : TaggedType NoticeReference :=
  .sequence do
    let organization ← anyString.required
    let numbers ← (TaggedType.sequenceOf int64.schema).required
    return ⟨organization, numbers⟩

def UserNotice.taggedType : TaggedType UserNotice :=
  .sequence do
    let reference? ← NoticeReference.taggedType.optional
    let text? ← anyString.optional
    return ⟨reference?, text?⟩

def PolicyQualifier.taggedType : TaggedType PolicyQualifier :=
  .sequence do
    let id ← objectId.required
    if id = ObjectId.cpsPointer then return .pointer (← ia5String.required)
    else if id = ObjectId.userNotice then return .notice (← UserNotice.taggedType.required)
    else return .other id (← remaining)

def PolicyInformation.taggedType : TaggedType PolicyInformation :=
  .sequence do
    let policy ← objectId.required
    let qualifiers? ← (TaggedType.sequenceOf PolicyQualifier.taggedType.schema).optional
    return ⟨policy, qualifiers?⟩

def PolicyInformation.listType : TaggedType (List PolicyInformation) :=
  .sequenceOf PolicyInformation.taggedType.schema

/-! ### Outlines -/

def NoticeReference.outline (reference : NoticeReference) : Outline :=
  line 3 "Notice Reference:" ++
  line 4 ("Organization: " ++ reference.organization) ++
  line 4 ("Notice Numbers: " ++ ", ".intercalate (reference.numbers.map toString))

def UserNotice.outline (notice : UserNotice) : Outline :=
  line 2 "User Notice:" ++
  (match notice.reference? with
    | none => []
    | some reference => reference.outline) ++
  field? 3 "Explicit Text: " id notice.text?

def PolicyQualifier.outline : PolicyQualifier → Outline
  | .pointer uri => item 2 (.ofUri "CPS Pointer: " uri)
  | .notice shown => shown.outline
  | .other id elements =>
    line 2 id.dotted ++ (if elements.isEmpty then [] else line 2 (Hex.numeral elements))

namespace PolicyInformation

/-- A qualifier under its number and that of its policy. -/
def qualifierOutline (policy number : Nat) (qualifier : PolicyQualifier) : Outline :=
  line 1 ("Policy Qualifier Information [" ++ toString policy ++ "," ++ toString number ++ "]:") ++
  qualifier.outline

def outline (number : Nat) (information : PolicyInformation) : Outline :=
  line 0 ("Certificate Policy [" ++ toString number ++ "]:") ++
  line 1 ("Policy Identifier: " ++ information.policy.dotted) ++
  numbered (qualifierOutline number) (information.qualifiers?.getD [])

def listOutline : List PolicyInformation → Outline := numbered outline

end PolicyInformation

/-! ### Mappings -/

/-- A policy of an issuer's domain, and the policy of the subject's domain that is as good. -/
structure PolicyMapping where
  issuerPolicy : ObjectId
  subjectPolicy : ObjectId
  deriving DecidableEq, Repr

namespace PolicyMapping

def taggedType : TaggedType PolicyMapping :=
  .sequence do
    let issuerPolicy ← objectId.required
    let subjectPolicy ← objectId.required
    return ⟨issuerPolicy, subjectPolicy⟩

def listType : TaggedType (List PolicyMapping) := .sequenceOf taggedType.schema

def outline (number : Nat) (mapping : PolicyMapping) : Outline :=
  line 0 ("Policy Mapping [" ++ toString number ++ "]:") ++
  line 1 ("Issuer Domain Policy: " ++ mapping.issuerPolicy.dotted) ++
  line 1 ("Subject Domain Policy: " ++ mapping.subjectPolicy.dotted)

def listOutline : List PolicyMapping → Outline := numbered outline

end PolicyMapping

end CertExtensions
