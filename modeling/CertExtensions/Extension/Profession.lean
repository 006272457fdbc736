import CertExtensions.Extension.Qualified

/-!
# Professions and powers

Extensions that say what the subject of a certificate is allowed to do: professions with the authorities that admit
to them, powers to sign for others, limits of liability, majority, and the model of validity.
-/

namespace CertExtensions

open Asn1 Outline

/-! ### Admission to professions -/

/-- An authority that gives names to professions. -/
structure NamingAuthority where
  id? : Option ObjectId
  url? : Option String
  text? : Option String
  deriving DecidableEq, Repr

namespace NamingAuthority

def taggedType : TaggedType NamingAuthority :=
  .sequence do
    let id? ← objectId.optional
    let url? ← ia5String.optional
    let text? ← anyString.optional
    return ⟨id?, url?, text?⟩

def outline (depth : Nat) (authority : NamingAuthority) : Outline :=
  field? depth "Naming Authority OID: " ObjectId.dotted authority.id? ++
  field? depth "Naming Authority URL: " id authority.url? ++
  field? depth "Naming Authority Text: " id authority.text?

end NamingAuthority

/-- Professions of one naming authority. -/
structure ProfessionInfo where
  naming? : Option NamingAuthority
  items : List String
  ids? : Option (List ObjectId)
  registration? : Option String
  additional? : Option (List UInt8)
  deriving DecidableEq, Repr

namespace ProfessionInfo

def taggedType : TaggedType ProfessionInfo :=
  .sequence do
    let naming? ← (TaggedType.explicit (.context 0) NamingAuthority.taggedType.schema).optional
    let items ← (TaggedType.sequenceOf anyString).required
    let ids? ← (TaggedType.sequenceOf objectId.schema).optional
    let registration? ← printableString.optional
    let additional? ← octetString.optional
    return ⟨naming?, items, ids?, registration?, additional?⟩

def outline (info : ProfessionInfo) : Outline :=
  line 1 "Profession Info:" ++
  (match info.naming? with
    | none => []
    | some authority => authority.outline 2) ++
  lines 2 (info.items.map fun item => "Profession Item: " ++ item) ++
  lines 2 ((info.ids?.getD []).map fun id => "Profession OID: " ++ id.dotted) ++
  field? 2 "Registration Number: " id info.registration? ++
  field? 2 "Add Profession Info: " Hex.numeral info.additional?

end ProfessionInfo

/-- The professions to which one authority admits. -/
structure AdmissionEntry where
  authority? : Option GeneralName
  naming? : Option NamingAuthority
  professions : List ProfessionInfo
  deriving DecidableEq, Repr

/-- A line for an authority, if there is one. -/
def admissionAuthority (depth : Nat) : Option GeneralName → Outline
  | none => []
  | some name => item depth (name.phrase.labelled "Admission Authority: ")

namespace AdmissionEntry

def taggedType : TaggedType AdmissionEntry :=
  .sequence do
    let authority? ← (TaggedType.explicit (.context 0) GeneralName.schema).optional
    let naming? ← (TaggedType.explicit (.context 1) NamingAuthority.taggedType.schema).optional
    let professions ← (TaggedType.sequenceOf ProfessionInfo.taggedType.schema).required
    return ⟨authority?, naming?, professions⟩

def outline (number : Nat) (entry : AdmissionEntry) : Outline :=
  line 0 ("Admission [" ++ toString number ++ "]:") ++
  admissionAuthority 1 entry.authority? ++
  (match entry.naming? with
    | none => []
    | some authority => authority.outline 1) ++
  entry.professions.flatMap ProfessionInfo.outline

end AdmissionEntry

/-- Admissions, and the authority that admits where an entry names none. -/
structure Admission where
  authority? : Option GeneralName
  entries : List AdmissionEntry
  deriving DecidableEq, Repr

namespace Admission

def taggedType : TaggedType Admission :=
  .sequence do
    let authority? ← GeneralName.schema.optional
    let entries ← (TaggedType.sequenceOf AdmissionEntry.taggedType.schema).required
    return ⟨authority?, entries⟩

def outline (admission : Admission) : Outline :=
  admissionAuthority 0 admission.authority? ++ numbered AdmissionEntry.outline admission.entries

end Admission

/-! ### Powers to sign -/

/-- For whom the subject signs: a person, or the subject of another certificate. -/
inductive SigningFor where
  | person (name : GeneralName)
  | certificate (issuer : List GeneralName) (serial : List UInt8)
  deriving DecidableEq, Repr

namespace SigningFor

/-- Issuer and serial number of a certificate, whatever comes behind them. -/
def certificateType : TaggedType SigningFor :=
  .sequence do
    let issuer ← GeneralName.listType.required
    let serial ← integerOctets.required
    let _ ← remaining
    return .certificate issuer serial

def schema : Schema SigningFor :=
  .choice (GeneralName.types.map (·.map person) ++ [certificateType])

def outline : SigningFor → Outline
  | .person name => item 0 (name.phrase.labelled "Third Person: ")
  | .certificate issuer serial =>
    line 0 "Certificate Reference:" ++
    line 1 "Issuer:" ++
    GeneralName.outline 2 issuer ++
    line 1 ("Serial Number: " ++ Hex.numeral serial)

end SigningFor

/-- The power to sign for somebody else. -/
structure Procuration where
  nation? : Option String
  substitution? : Option String
  signingFor : SigningFor
  deriving DecidableEq, Repr

namespace Procuration

def taggedType : TaggedType Procuration :=
  .sequence do
    let nation? ← (TaggedType.explicit (.context 1) printableString.schema).optional
    let substitution? ← (TaggedType.explicit (.context 2) anyString).optional
    let signingFor ← (TaggedType.explicit (.context 3) SigningFor.schema).required
    return ⟨nation?, substitution?, signingFor⟩

def outline (procuration : Procuration) : Outline :=
  field? 0 "Country: " id procuration.nation? ++
  field? 0 "Type of Substitution: " id procuration.substitution? ++
  procuration.signingFor.outline

end Procuration

/-! ### Majority -/

/-- What is known of the age of the subject. -/
inductive DeclarationOfMajority where
  | notYoungerThan (age : Int)
  | fullAgeAtCountry (fullAge : Bool) (country : String)
  | dateOfBirth (moment : Moment)
  deriving DecidableEq, Repr

namespace DeclarationOfMajority

/-- Whether the subject is of full age in a country; true if that is missing. -/
def fullAgeType : TaggedType DeclarationOfMajority :=
  .sequence do
    let fullAge? ← boolean.optional
    let country ← printableString.required
    return .fullAgeAtCountry (fullAge?.getD true) country

def schema : Schema DeclarationOfMajority :=
  .choice [
    (int64.map notYoungerThan).implicit (.context 0),
    fullAgeType.implicit (.context 1),
    (generalizedTime.map dateOfBirth).implicit (.context 2)]

def outline : DeclarationOfMajority → Outline
  | .notYoungerThan age => line 0 ("Not Younger Than: " ++ toString age)
  | .fullAgeAtCountry fullAge country =>
    line 0 ("Full Age at Country: " ++ country ++ " (" ++ toString fullAge ++ ")")
  | .dateOfBirth moment => line 0 ("Date of Birth: " ++ moment.text)

end DeclarationOfMajority

/-! ### Validity -/

namespace ValidityModel

/-- The identifier of a model, whatever comes behind it. -/
def taggedType : TaggedType ObjectId :=
  .sequence do
    let model ← objectId.required
    let _ ← remaining
    return model

def outline (model : ObjectId) : Outline :=
  line 0 (model.nameIn ObjectId.validityModels)

end ValidityModel

end CertExtensions
