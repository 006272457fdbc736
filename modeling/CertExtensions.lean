import CertExtensions.Main
import CertExtensions.ExtensionSet.Operation
import CertExtensions.Proofs.Asn1.Header
import CertExtensions.Proofs.Asn1.Element
import CertExtensions.Proofs.Asn1.AcceptedElement
import CertExtensions.Proofs.Asn1.Extent
import CertExtensions.Proofs.Asn1.Encodings
import CertExtensions.Proofs.Asn1.Grammar
import CertExtensions.Proofs.Asn1.Shape
import CertExtensions.Proofs.Asn1.Integer
import CertExtensions.Proofs.Asn1.CharacterString
import CertExtensions.Proofs.Asn1.AcceptedString
import CertExtensions.Proofs.Certificate.Parts
import CertExtensions.Proofs.Certificate.Grammar
import CertExtensions.Proofs.Input
import CertExtensions.Proofs.Input.IssuerKey
import CertExtensions.Proofs.Hex.Numeral
import CertExtensions.Proofs.Hex.Dump
import CertExtensions.Proofs.Name
import CertExtensions.Proofs.GeneralName
import CertExtensions.Proofs.Extension.NameLines
import CertExtensions.Proofs.Extension.Extent
import CertExtensions.Proofs.Extension.Links
import CertExtensions.Proofs.Extension.Layout
import CertExtensions.Proofs.Extension.Anchors
import CertExtensions.Proofs.GeneralName.Encoding
import CertExtensions.Proofs.GeneralName.Shape
import CertExtensions.Proofs.Extension.Rendering
import CertExtensions.Proofs.Extension.Policies
import CertExtensions.Proofs.Extension.Admissions
import CertExtensions.Proofs.Extension.QualifiedStatements
import CertExtensions.Proofs.Asn1.ElementList
import CertExtensions.Proofs.Extension.NumberedLists
import CertExtensions.Proofs.Asn1.OptionalFields
import CertExtensions.Proofs.Extension.FieldRecords
import CertExtensions.Proofs.Extension.IntegerTexts
import CertExtensions.Proofs.Asn1.BitString
import CertExtensions.Proofs.Extension.BitTexts
import CertExtensions.Proofs.Asn1.NamedBits
import CertExtensions.Proofs.Extension.NamedBits
import CertExtensions.Proofs.CommandLine.Frame
import CertExtensions.Proofs.ObjectId.Dotted
import CertExtensions.Proofs.ObjectId.RoundTrip
import CertExtensions.Proofs.ObjectId.Content
import CertExtensions.Proofs.ObjectId.FirstByte
import CertExtensions.Proofs.ExtensionSet.Contents
import CertExtensions.Proofs.ExtensionSet.FiniteMap
import CertExtensions.Proofs.ExtensionSet.Session
import CertExtensions.Proofs.ExtensionSet.StoredForm
import CertExtensions.Proofs.ExtensionSet.AcceptedForm
import CertExtensions.Proofs.ExtensionSet.Truncation
import CertExtensions.Proofs.ExtensionSet.CanonicalOutput
import CertExtensions.Proofs.ExtensionSet.EncodedForm
import CertExtensions.Proofs.ExtensionSet.AcceptedSequence
import CertExtensions.Proofs.ExtensionSet.NormalForm
import CertExtensions.Proofs.ExtensionSet.CertifiedSequence
import CertExtensions.Proofs.ExtensionSet.EncodingOutcome
import CertExtensions.Proofs.ExtensionSet.RepeatedIdentifiers
import CertExtensions.Proofs.ExtensionSet.KeyIdentifiers
import CertExtensions.Proofs.ExtensionSet.Atomicity
import CertExtensions.Proofs.ExtensionSet.LastUpdate
import CertExtensions.Proofs.ExtensionSet.SerialNumbers
import CertExtensions.Proofs.ExtensionSet.Sections
import CertExtensions.Proofs.CommandLine.Export
import CertExtensions.Proofs.Asn1.Remaining
import CertExtensions.Proofs.Extension.OpenSequences
import CertExtensions.Proofs.IpAddress
