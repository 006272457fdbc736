import CertExtensions.GeneralName

/-!
# Qualified certificates

Statements about a qualified certificate, amounts of money, and biometric data of the subject.
-/

namespace CertExtensions

open Asn1 Outline

/-! ### Amounts -/

/-- An amount of money in units of a power of ten of a currency. -/
structure MonetaryValue where
  currency : String
  amount : Int
  exponent : Int
  deriving DecidableEq, Repr

namespace MonetaryValue

/-- The letters or the number of a currency. -/
def currencySchema : Schema String :=
  .choice [uint64.map toString, printableString]

def taggedType : TaggedType MonetaryValue :=
  .sequence do
    let currency ← currencySchema.required
    let amount ← int64.required
    let exponent ← int64.required
    return ⟨currency, amount, exponent⟩

def outline (depth : Nat) (value : MonetaryValue) : Outline :=
  line depth ("Currency: " ++ value.currency) ++
  line depth ("Amount: " ++ toString value.amount) ++
  line depth ("Exponent: " ++ toString value.exponent)

end MonetaryValue

/-! ### Statements -/

/-- The rules that a statement follows, and the authorities that assign the names in the certificate. -/
structure SemanticsInformation where
  semantics? : Option ObjectId
  authorities? : Option (List GeneralName)
  deriving DecidableEq, Repr

namespace SemanticsInformation

def taggedType : TaggedType SemanticsInformation :=
  .sequence do
    let semantics? ← objectId.optional
    let authorities? ← GeneralName.listType.optional
    return ⟨semantics?, authorities?⟩

def outline (information : SemanticsInformation) : Outline :=
  field? 2 "Semantics Identifier: " ObjectId.dotted information.semantics? ++
  match information.authorities? with
  | none => []
  | some names => line 2 "Name Registration Authorities:" ++ GeneralName.outline 3 names

end SemanticsInformation

/-- A document about the practice of an issuer, and its language. -/
structure DisclosureStatement where
  url : String
  language : String
  deriving DecidableEq, Repr

namespace DisclosureStatement

def taggedType : TaggedType DisclosureStatement :=
  .sequence do
    let url ← ia5String.required
    let language ← anyString.required
    return ⟨url, language⟩

def text (statement : DisclosureStatement) : String :=
  statement.url ++ " (" ++ statement.language ++ ")"

end DisclosureStatement

/-- A statement about a qualified certificate. Kinds that are not known keep the encodings of the elements behind
their identifier. -/
inductive QualifiedStatement where
  /-- the first or the second edition of the statement syntax -/
  | edition (second : Bool) (information? : Option SemanticsInformation)
  | compliance
  | secureDevice
  | limit (value : MonetaryValue)
  | retention (years : Int)
  | disclosure (statements : List DisclosureStatement)
  | kinds (ids : List ObjectId)
  | other (id : ObjectId) (elements : List UInt8)
  deriving DecidableEq, Repr

namespace QualifiedStatement

def firstEdition : ObjectId := ⟨[1, 3, 6, 1, 5, 5, 7, 11, 1]⟩

def secondEdition : ObjectId := ⟨[1, 3, 6, 1, 5, 5, 7, 11, 2]⟩

/-- The identifiers of a European standard for statements, told by the last arc. -/
def european (arc : Nat) : ObjectId := ⟨[0, 4, 0, 1862, 1, arc]⟩

/-- What follows the identifier of a statement. -/
def body (id : ObjectId) : Fields QualifiedStatement := do
  if id = firstEdition then return .edition false (← SemanticsInformation.taggedType.optional)
  else if id = secondEdition then return .edition true (← SemanticsInformation.taggedType.optional)
  else if id = european 1 then return .compliance
  else if id = european 2 then return .limit (← MonetaryValue.taggedType.required)
  else if id = european 3 then return .retention (← int64.required)
  else if id = european 4 then return .secureDevice
  else if id = european 5 then
    return .disclosure (← (TaggedType.sequenceOf DisclosureStatement.taggedType.schema).required)
  else if id = european 6 then return .kinds (← (TaggedType.sequenceOf objectId.schema).required)
  else return .other id (← remaining)

def taggedType : TaggedType QualifiedStatement :=
  .sequence do body (← objectId.required)

def listType : TaggedType (List QualifiedStatement) := .sequenceOf taggedType.schema

/-- The lines of a statement below its number. -/
def bodyOutline : QualifiedStatement → Outline
  | .edition second information? =>
    line 1 (if second then "QC Syntax V2" else "QC Syntax V1") ++
    (match information? with
      | none => []
      | some information => information.outline)
  | .compliance => line 1 "QC Compliance"
  | .secureDevice => line 1 "QC SSCD"
  | .limit value => line 1 "QC EU Limit Value" ++ value.outline 2
  | .retention years => line 1 ("QC Retention Period: " ++ toString years)
  | .disclosure statements =>
    line 1 "QC PKI Disclosure Statements" ++ lines 2 (statements.map DisclosureStatement.text)
  | .kinds ids => line 1 "QC Type" ++ lines 2 (ids.map (·.nameIn ObjectId.qualifiedTypes))
  | .other id elements =>
    line 1 (if elements.isEmpty then id.dotted else id.dotted ++ ": " ++ Hex.numeral elements)

def outline (number : Nat) (statement : QualifiedStatement) : Outline :=
  line 0 ("QC Statement [" ++ toString number ++ "]:") ++ statement.bodyOutline

def listOutline : List QualifiedStatement → Outline := numbered outline

end QualifiedStatement

/-! ### Biometric data -/

/-- A hash of biometric data, and where the data are to be had. -/
structure BiometricData where
  /-- a number or an identifier, as text -/
  type : String
  hashAlgorithm : ObjectId
  hash : List UInt8
  source? : Option String
  deriving DecidableEq, Repr

namespace BiometricData

/-- An algorithm, whatever its parameters are. -/
def algorithmType : TaggedType ObjectId :=
  .sequence do
    let algorithm ← objectId.required
    let _ ← remaining
    return algorithm

def taggedType : TaggedType BiometricData :=
  .sequence do
    let type ← (Schema.choice [int64.map toString, objectId.map ObjectId.dotted]).required
    let hashAlgorithm ← algorithmType.required
    let hash ← octetString.required
    let source? ← ia5String.optional
    return ⟨type, hashAlgorithm, hash, source?⟩

def listType : TaggedType (List BiometricData) := .sequenceOf taggedType.schema

def outline (number : Nat) (data : BiometricData) : Outline :=
  line 0 ("Biometric Data [" ++ toString number ++ "]") ++
  line 1 ("Type: " ++ data.type) ++
  line 1 ("Hash Algorithm: " ++ data.hashAlgorithm.dotted) ++
  line 1 ("Hash: " ++ Hex.numeral data.hash) ++
  field? 1 "Source Data URI: " id data.source?

def listOutline : List BiometricData → Outline := numbered outline

end BiometricData

end CertExtensions
