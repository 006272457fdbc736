import CertExtensions.Proofs.Input

/-!
# The key of an issuer's file

An issuer is read out of a certificate whatever the label of the block that the certificate is in, while a key is taken
out of a block only as the label allows. So a file that gives an issuer gives the issuer's key too if the certificate
stands by itself or under the label of a certificate; under any other label it gives no key. Main statements:

* `publicKey_of_issuer`: without a label or with the label of a certificate, the key is the issuer's;
* `publicKey_of_label`: with any other label there is the error that `keyRefusal` tells;
* `key_by_label`: both, for files.
-/

namespace CertExtensions

variable {bytes der : List UInt8} {issuer : Issuer}

/-! ### Certificates that are read as something else -/

private theorem PublicKey.ofDer_of_certificate {certificate : Certificate}
    (h : Certificate.read? der = some certificate) :
    ofDer der = .error .publicKey := by
  rw [ofDer, (eq_none_of_certificate h).2]

private theorem PublicKey.ofRequest_of_certificate {certificate : Certificate}
    (h : Certificate.read? der = some certificate) :
    ofRequest der = .error .request := by
  rw [ofRequest, (eq_none_of_certificate h).1]

namespace Input

/-- Why no key is taken out of a certificate under a label that is not a certificate's; `file` is the name of the
file. -/
def keyRefusal (file label : String) : InputError :=
  if label = "PUBLIC KEY" then .contents .publicKey
  else if label ∈ requestLabels then .contents .request
  else .unsupportedLabel label file

variable {input : Input}

private theorem certificateKey_of_issuer (h : Issuer.ofCertificate der = .ok issuer) :
    certificateKey der = .ok issuer.key := by
  rw [certificateKey, h]
  rfl

theorem publicKey_of_issuer (h : input.issuer = .ok issuer)
    (hlabel : ∀ label, input.label? = some label → label = "CERTIFICATE") (file : String) :
    input.publicKey file = .ok issuer.key := by
  have hkey : certificateKey input.contents = .ok issuer.key := certificateKey_of_issuer h
  unfold publicKey
  cases hinput : input.label? with
  | none =>
    dsimp only
    rw [Reader.mapError_eq_ok_iff, anyKey_eq_ok_iff]
    exact .inl (.inr hkey)
  | some label =>
    dsimp only
    rw [hlabel label hinput, if_neg (by decide), if_pos rfl, hkey]
    rfl

theorem publicKey_of_label (h : input.issuer = .ok issuer) {label : String} (hlabel : input.label? = some label)
    (hcertificate : label ≠ "CERTIFICATE") (file : String) :
    input.publicKey file = .error (keyRefusal file label) := by
  obtain ⟨certificate, hread⟩ := Issuer.exists_certificate h
  unfold publicKey keyRefusal
  rw [hlabel]
  dsimp only
  by_cases hkey : label = "PUBLIC KEY"
  · rw [if_pos hkey, if_pos hkey, PublicKey.ofDer_of_certificate hread]
    rfl
  · rw [if_neg hkey, if_neg hkey, if_neg hcertificate]
    by_cases hrequest : label ∈ requestLabels
    · rw [if_pos hrequest, if_pos hrequest, PublicKey.ofRequest_of_certificate hread]
      rfl
    · rw [if_neg hrequest, if_neg hrequest]

end Input

/-! ### Files -/

private theorem Issuer.exists_input (h : ofFile (some bytes) = .ok issuer) :
    ∃ input, Input.ofBytes bytes = .ok input ∧ input.issuer = .ok issuer := by
  obtain ⟨input, hinput, hissuer⟩ := Reader.bind_eq_ok h
  exact ⟨input, hinput, Reader.mapError_eq_ok_iff.mp hissuer⟩

private theorem Issuer.ofFile_of_input {input : Input} (h : Input.ofBytes bytes = .ok input)
    (hissuer : input.issuer = .ok issuer) : ofFile (some bytes) = .ok issuer := by
  rw [ofFile_eq h, Reader.mapError_eq_ok_iff]
  exact hissuer

/-- A file that gives an issuer gives its key if the certificate is in no block or in one that is labelled as a
certificate; under each other label it gives the error of that label. -/
theorem key_by_label (h : Issuer.ofFile (some bytes) = .ok issuer) (file : String) :
    ∃ input, Input.ofBytes bytes = .ok input ∧
      ((∀ label, input.label? = some label → label = "CERTIFICATE") →
        PublicKey.ofFile file (some bytes) = .ok issuer.key) ∧
      ∀ label, input.label? = some label → label ≠ "CERTIFICATE" →
        PublicKey.ofFile file (some bytes) = .error (Input.keyRefusal file label) := by
  obtain ⟨input, hinput, hissuer⟩ := Issuer.exists_input h
  refine ⟨input, hinput, fun hlabel => ?_, fun label hlabel hcertificate => ?_⟩
  · rw [PublicKey.ofFile_eq hinput]
    exact Input.publicKey_of_issuer hissuer hlabel file
  · rw [PublicKey.ofFile_eq hinput]
    exact Input.publicKey_of_label hissuer hlabel hcertificate file

/-- The certificate in `smallBlock`. -/
def smallBlockCertificate : List UInt8 :=
  smallCertificate [48, 13, 48, 11, 6, 3, 85, 29, 14, 4, 4, 4, 2, 1, 2]

private theorem exists_smallIssuer :
    ∃ issuer, Issuer.ofCertificate smallBlockCertificate = .ok issuer ∧ issuer.key = ⟨[7]⟩ := by
  have hkey : (Issuer.ofCertificate smallBlockCertificate).toOption.map (·.key) = some ⟨[7]⟩ := rfl
  obtain ⟨issuer, hissuer, hkey⟩ := Option.map_eq_some_iff.mp hkey
  exact ⟨issuer, Input.toOption_eq_some_iff.mp hissuer, hkey⟩

theorem key_by_label_smallBlock :
    ∃ issuer, Issuer.ofFile (some smallBlock) = .ok issuer ∧ issuer.key = ⟨[7]⟩ ∧
      PublicKey.ofFile "ca.pem" (some smallBlock) = .ok issuer.key := by
  have hblock : Input.ofBytes smallBlock = .ok ⟨some "CERTIFICATE", smallBlockCertificate⟩ :=
    Input.ofBytes_smallBlock
  obtain ⟨issuer, hissuer, hkey⟩ := exists_smallIssuer
  have hread := Issuer.ofFile_of_input hblock hissuer
  obtain ⟨input, hinput, hsame, -⟩ := key_by_label hread "ca.pem"
  rw [hblock] at hinput
  cases hinput
  refine ⟨issuer, hread, hkey, hsame fun label hlabel => ?_⟩
  exact (Option.some.inj hlabel).symm

/-- The certificate of `smallBlock` in a block with an older label for certificates. -/
def smallOldBlock : List UInt8 :=
  Pem.bytesOf <|
    "-----BEGIN X509 CERTIFICATE-----\n" ++
    "MFUwSgIBKjAEBgIqAzAAMB4XDTI0MDEwMTAwMDAwMFoXDTI0MDEwMTAwMDAwMFow\n" ++
    "ADAKMAQGAioDAwIAB6MPMA0wCwYDVR0OBAQEAgECMAQGAioDAwEA\n" ++
    "-----END X509 CERTIFICATE-----\n"

/-- Under the older label an issuer is read, and no key. -/
theorem issuer_without_key :
    ∃ issuer, Issuer.ofFile (some smallOldBlock) = .ok issuer ∧
      PublicKey.ofFile "ca.pem" (some smallOldBlock) = .error (.unsupportedLabel "X509 CERTIFICATE" "ca.pem") := by
  have hblock : Input.ofBytes smallOldBlock = .ok ⟨some "X509 CERTIFICATE", smallBlockCertificate⟩ :=
    Input.ofBytes_of_frame (by decide) (by decide +kernel) (by decide) decode_smallBlockData
  obtain ⟨issuer, hissuer, -⟩ := exists_smallIssuer
  refine ⟨issuer, Issuer.ofFile_of_input hblock hissuer, ?_⟩
  rw [PublicKey.ofFile_eq hblock]
  rfl

end CertExtensions
