import CertExtensions.BigEndian

/-!
# Types of extensions

The extension types that are known by their object identifier. Each has an identifier in dotted form, a name to
show, and a symbol, which is one word. Main statement: no two types have the same identifier, so that
`ofIdentifier?` finds exactly the type of an identifier (`ofIdentifier?_identifier`).
-/

namespace CertExtensions

inductive ExtensionType where
  | entrustVersionInformation
  | authorityInformationAccess
  | subjectInformationAccess
  | subjectDirectoryAttributes
  | subjectKeyIdentifier
  | keyUsage
  | privateKeyUsagePeriod
  | subjectAlternativeName
  | issuerAlternativeName
  | basicConstraints
  | crlNumber
  | reasonCode
  | holdInstructionCode
  | invalidityDate
  | deltaCrlIndicator
  | issuingDistributionPoint
  | certificateIssuer
  | nameConstraints
  | crlDistributionPoints
  | certificatePolicies
  | policyMappings
  | authorityKeyIdentifier
  | policyConstraints
  | extendedKeyUsage
  | freshestCrl
  | inhibitAnyPolicy
  | netscapeCertificateType
  | netscapeBaseUrl
  | netscapeRevocationUrl
  | netscapeCaRevocationUrl
  | netscapeCertificateRenewalUrl
  | netscapeCaPolicyUrl
  | netscapeSslServerName
  | netscapeComment
  | authorityAttributeIdentifier
  | roleSpecificationCertificateIdentifier
  | crlStreamIdentifier
  | basicAttConstraints
  | delegatedNameConstraints
  | timeSpecification
  | crlScope
  | statusReferrals
  | orderedList
  | attributeDescriptor
  | userNotice
  | soaIdentifier
  | baseUpdateTime
  | acceptableCertificatePolicies
  | deltaInformation
  | targetInformation
  | noRevocationAvailability
  | acceptablePrivilegePolicies
  | authorityKeyIdentifierObs
  | primaryKeyAttributesObs
  | certificatePoliciesObs
  | primaryKeyUsageRestrictionObs
  | policyMappingsObs
  | subtreesConstraintObs
  | subjectAlternativeNameObs
  | issuerAlternativeNameObs
  | basicConstraintsObs
  | nameConstraintsObs
  | policyConstraintsObs
  | basicConstraintsObs1
  | expirationDateObs
  | crlDistributionPointsObs
  | issuingDistributionPointObs
  | policyConstraintsObs1
  | biometricInfo
  | qcStatements
  | ocspNoCheck
  | liabilityLimitationFlag
  | dateOfCertGen
  | procuration
  | admission
  | monetaryLimit
  | declarationOfMajority
  | iccsn
  | restriction
  | additionalInformation
  | validityModel
  | msEnrollCertTypeExtension
  | msCaVersion
  | msCaCertificateHash
  | msCrlNextPublish
  | msCertificateTemplate
  | msApplicationPolicies
  | smimeCapabilities
  | logoType
  | setHashedRootKey
  | setCertificateType
  | setMerchantData
  | setCardCertRequired
  | setTunneling
  | setSetExtensions
  | setSetQualifier
  | vsCzag
  | vsNonVerified
  | vsFidelityToken
  | vsInBoxV1
  | vsSerialNumberRollover
  | vsTokenType
  | vsInBoxV2
  | vsOnSiteJurisdictionHash
  | vsUnknown
  | vsDnbDunsNumber
  | ctSignedCertificateTimestamps
  | appleCodeSigning
  | appleInstallerSigning
  | appleDevProgram
  deriving DecidableEq, Repr

namespace ExtensionType

/-- What is registered for a type. -/
structure Registration where
  symbol : String
  identifier : String
  name : String
  deriving DecidableEq, Repr

def registration : ExtensionType → Registration
  | entrustVersionInformation => ⟨"EntrustVersionInformation", "1.2.840.113533.7.65.0", "Entrust Version Information"⟩
  | authorityInformationAccess => ⟨"AuthorityInformationAccess", "1.3.6.1.5.5.7.1.1", "Authority Information Access"⟩
  | subjectInformationAccess => ⟨"SubjectInformationAccess", "1.3.6.1.5.5.7.1.11", "Subject Information Access"⟩
  | subjectDirectoryAttributes => ⟨"SubjectDirectoryAttributes", "2.5.29.9", "Subject Directory Attributes"⟩
  | subjectKeyIdentifier => ⟨"SubjectKeyIdentifier", "2.5.29.14", "Subject Key Identifier"⟩
  | keyUsage => ⟨"KeyUsage", "2.5.29.15", "Key Usage"⟩
  | privateKeyUsagePeriod => ⟨"PrivateKeyUsagePeriod", "2.5.29.16", "Private Key Usage Period"⟩
  | subjectAlternativeName => ⟨"SubjectAlternativeName", "2.5.29.17", "Subject Alternative Name"⟩
  | issuerAlternativeName => ⟨"IssuerAlternativeName", "2.5.29.18", "Issuer Alternative Name"⟩
  | basicConstraints => ⟨"BasicConstraints", "2.5.29.19", "Basic Constraints"⟩
  | crlNumber => ⟨"CrlNumber", "2.5.29.20", "CRL Number"⟩
  | reasonCode => ⟨"ReasonCode", "2.5.29.21", "Reason Code"⟩
  | holdInstructionCode => ⟨"HoldInstructionCode", "2.5.29.23", "Hold Instruction Code"⟩
  | invalidityDate => ⟨"InvalidityDate", "2.5.29.24", "Invalidity Date"⟩
  | deltaCrlIndicator => ⟨"DeltaCrlIndicator", "2.5.29.27", "Delta CRL Indicator"⟩
  | issuingDistributionPoint => ⟨"IssuingDistributionPoint", "2.5.29.28", "Issuing Distribution Point"⟩
  | certificateIssuer => ⟨"CertificateIssuer", "2.5.29.29", "Certificate Issuer"⟩
  | nameConstraints => ⟨"NameConstraints", "2.5.29.30", "Name Constraints"⟩
  | crlDistributionPoints => ⟨"CrlDistributionPoints", "2.5.29.31", "CRL Distribution Points"⟩
  | certificatePolicies => ⟨"CertificatePolicies", "2.5.29.32", "Certificate Policies"⟩
  | policyMappings => ⟨"PolicyMappings", "2.5.29.33", "Policy Mappings"⟩
  | authorityKeyIdentifier => ⟨"AuthorityKeyIdentifier", "2.5.29.35", "Authority Key Identifier"⟩
  | policyConstraints => ⟨"PolicyConstraints", "2.5.29.36", "Policy Constraints"⟩
  | extendedKeyUsage => ⟨"ExtendedKeyUsage", "2.5.29.37", "Extended Key Usage"⟩
  | freshestCrl => ⟨"FreshestCrl", "2.5.29.46", "Freshest CRL"⟩
  | inhibitAnyPolicy => ⟨"InhibitAnyPolicy", "2.5.29.54", "Inhibit Any Policy"⟩
  | netscapeCertificateType => ⟨"NetscapeCertificateType", "2.16.840.1.113730.1.1", "Netscape Certificate Type"⟩
  | netscapeBaseUrl => ⟨"NetscapeBaseUrl", "2.16.840.1.113730.1.2", "Netscape Base URL"⟩
  | netscapeRevocationUrl => ⟨"NetscapeRevocationUrl", "2.16.840.1.113730.1.3", "Netscape Revocation URL"⟩
  | netscapeCaRevocationUrl => ⟨"NetscapeCaRevocationUrl", "2.16.840.1.113730.1.4", "Netscape CA Revocation URL"⟩
  | netscapeCertificateRenewalUrl => ⟨"NetscapeCertificateRenewalUrl", "2.16.840.1.113730.1.7", "Netscape Certificate Renewal URL"⟩
  | netscapeCaPolicyUrl => ⟨"NetscapeCaPolicyUrl", "2.16.840.1.113730.1.8", "Netscape CA Policy URL"⟩
  | netscapeSslServerName => ⟨"NetscapeSslServerName", "2.16.840.1.113730.1.12", "Netscape SSL Server Name"⟩
  | netscapeComment => ⟨"NetscapeComment", "2.16.840.1.113730.1.13", "Netscape Comment"⟩
  | authorityAttributeIdentifier => ⟨"AuthorityAttributeIdentifier", "2.5.29.38", "Authority Attribute Identifier"⟩
  | roleSpecificationCertificateIdentifier => ⟨"RoleSpecificationCertificateIdentifier", "2.5.29.39", "Role Specification Certificate Identifier"⟩
  | crlStreamIdentifier => ⟨"CrlStreamIdentifier", "2.5.29.40", "CRL Stream Identifier"⟩
  | basicAttConstraints => ⟨"BasicAttConstraints", "2.5.29.41", "Basic Attribute Constraints"⟩
  | delegatedNameConstraints => ⟨"DelegatedNameConstraints", "2.5.29.42", "Delegated Name Constraints"⟩
  | timeSpecification => ⟨"TimeSpecification", "2.5.29.43", "Time Specification"⟩
  | crlScope => ⟨"CrlScope", "2.5.29.44", "CRL Scope"⟩
  | statusReferrals => ⟨"StatusReferrals", "2.5.29.45", "Status Referrals"⟩
  | orderedList => ⟨"OrderedList", "2.5.29.47", "Ordered List"⟩
  | attributeDescriptor => ⟨"AttributeDescriptor", "2.5.29.48", "Attribute Descriptor"⟩
  | userNotice => ⟨"UserNotice", "2.5.29.49", "User Notice"⟩
  | soaIdentifier => ⟨"SoaIdentifier", "2.5.29.50", "SOA Identifier"⟩
  | baseUpdateTime => ⟨"BaseUpdateTime", "2.5.29.51", "Base Update Time"⟩
  | acceptableCertificatePolicies => ⟨"AcceptableCertificatePolicies", "2.5.29.52", "Acceptable Certificate Policies"⟩
  | deltaInformation => ⟨"DeltaInformation", "2.5.29.53", "Delta Information"⟩
  | targetInformation => ⟨"TargetInformation", "2.5.29.55", "Target Information"⟩
  | noRevocationAvailability => ⟨"NoRevocationAvailability", "2.5.29.56", "No Revocation Availability"⟩
  | acceptablePrivilegePolicies => ⟨"AcceptablePrivilegePolicies", "2.5.29.57", "Acceptable Privilege Policies"⟩
  | authorityKeyIdentifierObs => ⟨"AuthorityKeyIdentifierObs", "2.5.29.1", "Authority Key Identifier (obsolete)"⟩
  | primaryKeyAttributesObs => ⟨"PrimaryKeyAttributesObs", "2.5.29.2", "Primary Key Attributes (obsolete)"⟩
  | certificatePoliciesObs => ⟨"CertificatePoliciesObs", "2.5.29.3", "Certificate Policies (obsolete)"⟩
  | primaryKeyUsageRestrictionObs => ⟨"PrimaryKeyUsageRestrictionObs", "2.5.29.4", "Primary Key Usage Restriction (obsolete)"⟩
  | policyMappingsObs => ⟨"PolicyMappingsObs", "2.5.29.5", "Policy Mappings (obsolete)"⟩
  | subtreesConstraintObs => ⟨"SubtreesConstraintObs", "2.5.29.6", "Subtrees Constraint (obsolete)"⟩
  | subjectAlternativeNameObs => ⟨"SubjectAlternativeNameObs", "2.5.29.7", "Subject Alternative Name (obsolete)"⟩
  | issuerAlternativeNameObs => ⟨"IssuerAlternativeNameObs", "2.5.29.8", "Issuer Alternative Name (obsolete)"⟩
  | basicConstraintsObs => ⟨"BasicConstraintsObs", "2.5.29.10", "Basic Constraints (obsolete)"⟩
  | nameConstraintsObs => ⟨"NameConstraintsObs", "2.5.29.11", "Name Constraints (obsolete)"⟩
  | policyConstraintsObs => ⟨"PolicyConstraintsObs", "2.5.29.12", "Policy Constraints (obsolete)"⟩
  | basicConstraintsObs1 => ⟨"BasicConstraintsObs1", "2.5.29.13", "Basic Constraints (obsolete)"⟩
  | expirationDateObs => ⟨"ExpirationDateObs", "2.5.29.22", "Expiration Date (obsolete)"⟩
  | crlDistributionPointsObs => ⟨"CrlDistributionPointsObs", "2.5.29.25", "CRL Distribution Points (obsolete)"⟩
  | issuingDistributionPointObs => ⟨"IssuingDistributionPointObs", "2.5.29.26", "Issuing Distribution Point (obsolete)"⟩
  | policyConstraintsObs1 => ⟨"PolicyConstraintsObs1", "2.5.29.34", "Policy Constraints (obsolete)"⟩
  | biometricInfo => ⟨"BiometricInfo", "1.3.6.1.5.5.7.1.2", "Biometric Info"⟩
  | qcStatements => ⟨"QcStatements", "1.3.6.1.5.5.7.1.3", "QC Statements"⟩
  | ocspNoCheck => ⟨"OcspNoCheck", "1.3.6.1.5.5.7.48.1.5", "OCSP No Check"⟩
  | liabilityLimitationFlag => ⟨"LiabilityLimitationFlag", "0.2.262.1.10.12.0", "Liability Limitation Flag"⟩
  | dateOfCertGen => ⟨"DateOfCertGen", "1.3.36.8.3.1", "Date of Certificate Generation"⟩
  | procuration => ⟨"Procuration", "1.3.36.8.3.2", "Procuration"⟩
  | admission => ⟨"Admission", "1.3.36.8.3.3", "Admission"⟩
  | monetaryLimit => ⟨"MonetaryLimit", "1.3.36.8.3.4", "Monetary Limit"⟩
  | declarationOfMajority => ⟨"DeclarationOfMajority", "1.3.36.8.3.5", "Declaration of Majority"⟩
  | iccsn => ⟨"Iccsn", "1.3.36.8.3.11", "Integrated Circuit Card Serial Number"⟩
  | restriction => ⟨"Restriction", "1.3.36.8.3.8", "Restriction"⟩
  | additionalInformation => ⟨"AdditionalInformation", "1.3.36.8.3.15", "Additional Information"⟩
  | validityModel => ⟨"ValidityModel", "1.3.6.1.4.1.8301.3.5", "Validity Model"⟩
  | msEnrollCertTypeExtension => ⟨"MsEnrollCertTypeExtension", "1.3.6.1.4.1.311.20.2", "Microsoft Certificate Type"⟩
  | msCaVersion => ⟨"MsCaVersion", "1.3.6.1.4.1.311.21.1", "Microsoft CA Version"⟩
  | msCaCertificateHash => ⟨"MsCaCertificateHash", "1.3.6.1.4.1.311.21.2", "Microsoft CA Certificate Hash"⟩
  | msCrlNextPublish => ⟨"MsCrlNextPublish", "1.3.6.1.4.1.311.21.4", "Microsoft CRL Next Publish"⟩
  | msCertificateTemplate => ⟨"MsCertificateTemplate", "1.3.6.1.4.1.311.21.7", "Microsoft Certificate Template"⟩
  | msApplicationPolicies => ⟨"MsApplicationPolicies", "1.3.6.1.4.1.311.21.10", "Microsoft Application Policies"⟩
  | smimeCapabilities => ⟨"SmimeCapabilities", "1.2.840.113549.1.9.15", "S/MIME Capabilities"⟩
  | logoType => ⟨"LogoType", "1.3.6.1.5.5.7.1.12", "Logotype"⟩
  | setHashedRootKey => ⟨"SetHashedRootKey", "2.23.42.7.0", "SET Hashed Root Key"⟩
  | setCertificateType => ⟨"SetCertificateType", "2.23.42.7.1", "SET Certificate Type"⟩
  | setMerchantData => ⟨"SetMerchantData", "2.23.42.7.2", "SET Merchant Data"⟩
  | setCardCertRequired => ⟨"SetCardCertRequired", "2.23.42.7.3", "SET Card Certificate Required"⟩
  | setTunneling => ⟨"SetTunneling", "2.23.42.7.4", "SET Tunneling"⟩
  | setSetExtensions => ⟨"SetSetExtensions", "2.23.42.7.5", "SET Extensions"⟩
  | setSetQualifier => ⟨"SetSetQualifier", "2.23.42.7.6", "SET Qualifier"⟩
  | vsCzag => ⟨"VsCzag", "2.16.840.1.113733.1.6.3", "VeriSign CZAG"⟩
  | vsNonVerified => ⟨"VsNonVerified", "2.16.840.1.113733.1.6.4", "VeriSign Non Verified"⟩
  | vsFidelityToken => ⟨"VsFidelityToken", "2.16.840.1.113733.1.6.5", "VeriSign Fidelity Token"⟩
  | vsInBoxV1 => ⟨"VsInBoxV1", "2.16.840.1.113733.1.6.6", "VeriSign In Box V1"⟩
  | vsSerialNumberRollover => ⟨"VsSerialNumberRollover", "2.16.840.1.113733.1.6.7", "VeriSign Serial Number Rollover"⟩
  | vsTokenType => ⟨"VsTokenType", "2.16.840.1.113733.1.6.8", "VeriSign Token Type"⟩
  | vsInBoxV2 => ⟨"VsInBoxV2", "2.16.840.1.113733.1.6.10", "VeriSign In Box V2"⟩
  | vsOnSiteJurisdictionHash => ⟨"VsOnSiteJurisdictionHash", "2.16.840.1.113733.1.6.11", "VeriSign On Site Jurisdiction Hash"⟩
  | vsUnknown => ⟨"VsUnknown", "2.16.840.1.113733.1.6.13", "VeriSign Unknown"⟩
  | vsDnbDunsNumber => ⟨"VsDnbDunsNumber", "2.16.840.1.113733.1.6.15", "VeriSign D&B D-U-N-S Number"⟩
  | ctSignedCertificateTimestamps => ⟨"CtSignedCertificateTimestamps", "1.3.6.1.4.1.11129.2.4.2", "Signed Certificate Timestamp List"⟩
  | appleCodeSigning => ⟨"AppleCodeSigning", "1.2.840.113635.100.6.1.13", "Apple Application Code Signing"⟩
  | appleInstallerSigning => ⟨"AppleInstallerSigning", "1.2.840.113635.100.6.1.14", "Apple Installer Package Signing"⟩
  | appleDevProgram => ⟨"AppleDevProgram", "1.2.840.113635.100.6.2.6", "Apple Developer Program"⟩

/-- All types, in the order in which they are listed. -/
def all : List ExtensionType := [
  entrustVersionInformation, authorityInformationAccess, subjectInformationAccess,
  subjectDirectoryAttributes, subjectKeyIdentifier, keyUsage, privateKeyUsagePeriod,
  subjectAlternativeName, issuerAlternativeName, basicConstraints, crlNumber, reasonCode,
  holdInstructionCode, invalidityDate, deltaCrlIndicator, issuingDistributionPoint, certificateIssuer,
  nameConstraints, crlDistributionPoints, certificatePolicies, policyMappings, authorityKeyIdentifier,
  policyConstraints, extendedKeyUsage, freshestCrl, inhibitAnyPolicy, netscapeCertificateType,
  netscapeBaseUrl, netscapeRevocationUrl, netscapeCaRevocationUrl, netscapeCertificateRenewalUrl,
  netscapeCaPolicyUrl, netscapeSslServerName, netscapeComment, authorityAttributeIdentifier,
  roleSpecificationCertificateIdentifier, crlStreamIdentifier, basicAttConstraints,
  delegatedNameConstraints, timeSpecification, crlScope, statusReferrals, orderedList, attributeDescriptor,
  userNotice, soaIdentifier, baseUpdateTime, acceptableCertificatePolicies, deltaInformation,
  targetInformation, noRevocationAvailability, acceptablePrivilegePolicies, authorityKeyIdentifierObs,
  primaryKeyAttributesObs, certificatePoliciesObs, primaryKeyUsageRestrictionObs, policyMappingsObs,
  subtreesConstraintObs, subjectAlternativeNameObs, issuerAlternativeNameObs, basicConstraintsObs,
  nameConstraintsObs, policyConstraintsObs, basicConstraintsObs1, expirationDateObs,
  crlDistributionPointsObs, issuingDistributionPointObs, policyConstraintsObs1, biometricInfo,
  qcStatements, ocspNoCheck, liabilityLimitationFlag, dateOfCertGen, procuration, admission, monetaryLimit,
  declarationOfMajority, iccsn, restriction, additionalInformation, validityModel,
  msEnrollCertTypeExtension, msCaVersion, msCaCertificateHash, msCrlNextPublish, msCertificateTemplate,
  msApplicationPolicies, smimeCapabilities, logoType, setHashedRootKey, setCertificateType,
  setMerchantData, setCardCertRequired, setTunneling, setSetExtensions, setSetQualifier, vsCzag,
  vsNonVerified, vsFidelityToken, vsInBoxV1, vsSerialNumberRollover, vsTokenType, vsInBoxV2,
  vsOnSiteJurisdictionHash, vsUnknown, vsDnbDunsNumber, ctSignedCertificateTimestamps, appleCodeSigning,
  appleInstallerSigning, appleDevProgram]

/-- The type in one word. -/
def symbol (type : ExtensionType) : String := type.registration.symbol

def identifier (type : ExtensionType) : String := type.registration.identifier

def name (type : ExtensionType) : String := type.registration.name

/-- The type with the identifier; the text has to be the same. -/
def ofIdentifier? (identifier : String) : Option ExtensionType :=
  all.find? (·.identifier == identifier)

/-- The types are listed in the order of their constructors. -/
private theorem getElem?_all (type : ExtensionType) : all[type.ctorIdx]? = some type := by
  cases type <;> rfl

private theorem pairwise_identifier_ne : all.Pairwise fun type other => type.identifier ≠ other.identifier := by
  -- numbers are compared much faster than texts
  have hnumbers : (all.map fun type => BigEndian.value type.identifier.toUTF8.data.toList).Pairwise (· ≠ ·) := by
    decide +kernel
  exact (List.pairwise_map.mp hnumbers).imp fun hne h => hne (by rw [h])

theorem ofIdentifier?_identifier (type : ExtensionType) : ofIdentifier? type.identifier = some type := by
  obtain ⟨front, back, hall⟩ := List.append_of_mem (List.mem_of_getElem? (getElem?_all type))
  have hne := pairwise_identifier_ne
  rw [hall, List.pairwise_append] at hne
  refine List.find?_eq_some_iff_append.mpr ⟨beq_self_eq_true _, front, back, hall, fun other hother => ?_⟩
  simpa using hne.2.2 other hother type List.mem_cons_self

theorem identifier_of_ofIdentifier? {text : String} {type : ExtensionType}
    (h : ofIdentifier? text = some type) : type.identifier = text := by
  simpa using List.find?_some h

end ExtensionType

end CertExtensions
