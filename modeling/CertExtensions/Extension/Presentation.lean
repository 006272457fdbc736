import CertExtensions.Extension.Access
import CertExtensions.Extension.Constraint
import CertExtensions.Extension.KeyIdentifier
import CertExtensions.Extension.Policy
import CertExtensions.Extension.Profession
import CertExtensions.Extension.Revocation
import CertExtensions.Extension.Usage
import CertExtensions.Extension.Vendor
import CertExtensions.ExtensionType

/-!
# How each type is shown

A type whose structure is known is read by a schema and shown as the outline of what was read; the others are shown
as a dump of their bytes, and one as a number whatever it holds.
-/

namespace CertExtensions

open Asn1

/-- How the values of a type are shown. -/
inductive Presentation where
  /-- the bytes as a dump -/
  | dump
  /-- the bytes as one number -/
  | number
  /-- what a schema reads -/
  | structured (schema : Schema Outline)

namespace Presentation

/-- Values of a type with one tag, shown by an outline. -/
def ofType {α : Type} (type : TaggedType α) (outline : α → Outline) : Presentation :=
  .structured (type.schema.map outline)

/-- Values that are one text. -/
def ofText (schema : Schema String) : Presentation :=
  .structured (schema.map (Outline.line 0))

end Presentation

def ExtensionType.presentation : ExtensionType → Presentation
  | .entrustVersionInformation => .ofType EntrustVersion.taggedType EntrustVersion.outline
  | .authorityInformationAccess =>
    .ofType AccessDescription.listType (AccessDescription.listOutline "Authority Information Access")
  | .subjectInformationAccess =>
    .ofType AccessDescription.listType (AccessDescription.listOutline "Subject Information Access")
  | .subjectDirectoryAttributes =>
    .ofType DirectoryAttribute.sequenceType DirectoryAttribute.listOutline
  | .subjectKeyIdentifier => .ofType SubjectKeyIdentifier.taggedType SubjectKeyIdentifier.outline
  | .keyUsage => .ofType bitString KeyUsage.outline
  | .privateKeyUsagePeriod => .ofType PrivateKeyUsagePeriod.taggedType PrivateKeyUsagePeriod.outline
  | .subjectAlternativeName | .issuerAlternativeName | .certificateIssuer =>
    .ofType GeneralName.listType (GeneralName.outline 0)
  | .basicConstraints => .ofType BasicConstraints.taggedType BasicConstraints.outline
  | .crlNumber | .deltaCrlIndicator => .ofType integerOctets CrlNumber.outline
  | .reasonCode => .ofType enumerated ReasonCode.outline
  | .holdInstructionCode => .ofType objectId HoldInstruction.outline
  | .invalidityDate | .dateOfCertGen => .ofType generalizedTime Moment.outline
  | .issuingDistributionPoint =>
    .ofType IssuingDistributionPoint.taggedType IssuingDistributionPoint.outline
  | .nameConstraints => .ofType NameConstraints.taggedType NameConstraints.outline
  | .crlDistributionPoints =>
    .ofType DistributionPoint.listType (DistributionPoint.listOutline "CRL Distribution Point")
  | .freshestCrl =>
    .ofType DistributionPoint.listType (DistributionPoint.listOutline "Freshest CRL Distribution Point")
  | .certificatePolicies => .ofType PolicyInformation.listType PolicyInformation.listOutline
  | .policyMappings => .ofType PolicyMapping.listType PolicyMapping.listOutline
  | .authorityKeyIdentifier =>
    .ofType AuthorityKeyIdentifier.taggedType AuthorityKeyIdentifier.outline
  | .policyConstraints => .ofType PolicyConstraints.taggedType PolicyConstraints.outline
  | .extendedKeyUsage => .ofType ExtendedKeyUsage.taggedType ExtendedKeyUsage.outline
  | .inhibitAnyPolicy => .ofType uint64 InhibitAnyPolicy.outline
  | .netscapeCertificateType => .ofType bitString NetscapeCertificateType.outline
  | .netscapeBaseUrl | .netscapeRevocationUrl | .netscapeCaRevocationUrl
  | .netscapeCertificateRenewalUrl | .netscapeCaPolicyUrl | .netscapeSslServerName | .netscapeComment
  | .vsCzag | .vsFidelityToken | .vsInBoxV1 | .vsInBoxV2 | .vsSerialNumberRollover
  | .vsOnSiteJurisdictionHash => .ofText ia5String.schema
  | .biometricInfo => .ofType BiometricData.listType BiometricData.listOutline
  | .qcStatements => .ofType QualifiedStatement.listType QualifiedStatement.listOutline
  | .ocspNoCheck => .ofType null fun _ => .line 0 "OCSP No Check"
  | .liabilityLimitationFlag => .ofType boolean fun flag => .line 0 (toString flag)
  | .procuration => .ofType Procuration.taggedType Procuration.outline
  | .admission => .ofType Admission.taggedType Admission.outline
  | .monetaryLimit => .ofType MonetaryValue.taggedType (MonetaryValue.outline 0)
  | .declarationOfMajority =>
    .structured (DeclarationOfMajority.schema.map DeclarationOfMajority.outline)
  | .iccsn => .number
  | .restriction | .additionalInformation | .msEnrollCertTypeExtension => .ofText anyString
  | .validityModel => .ofType ValidityModel.taggedType ValidityModel.outline
  | .msCaVersion => .ofType uint32 CaVersion.outline
  | .msCrlNextPublish => .structured (time.map Moment.outline)
  | .msCertificateTemplate => .ofType CertificateTemplate.taggedType CertificateTemplate.outline
  | .smimeCapabilities => .ofType MailCapability.listType MailCapability.listOutline
  | .vsTokenType | .vsUnknown => .ofType bitString fun bits => .line 0 bits.binary
  | .vsNonVerified => .ofType DirectoryAttribute.setType DirectoryAttribute.listOutline
  | _ => .dump

end CertExtensions
