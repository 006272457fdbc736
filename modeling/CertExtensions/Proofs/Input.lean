import CertExtensions.Input
import CertExtensions.Proofs.Asn1.AcceptedString
import CertExtensions.Proofs.Certificate.Grammar
import CertExtensions.Proofs.Certificate.SmallCertificate

/-!
# Blocks and their contents

What a block holds can also stand in a file by itself. The label of a block tells which reader takes the contents, and
without a label each reader is tried; since no bytes are taken by two readers, both ways lead to the same reader. Main
statements:

* `extensions_eq_ok_iff`, `anyKey_eq_ok_iff`: without a label, what one of the readers gives is the result;
* `firstTaken?_of_perm`: so it does not matter in which order they are tried;
* `ofBytes_of_fieldTag`: what a reader takes is not taken for a block;
* `ofBytes_of_frame`: a block without headers holds the bytes that its symbols stand for;
* `contents_read_alike`: a block and its contents give the same extensions, the same key and the same issuer.
-/

namespace CertExtensions

open Asn1

variable {α : Type} {bytes der : List UInt8}

/-! ### What the readers take -/

private theorem ExtensionSet.exists_certificate {set : ExtensionSet} (h : ofCertificate der = .ok set) :
    ∃ certificate, Certificate.read? der = some certificate := by
  refine Option.ne_none_iff_exists'.mp fun hnone => ?_
  rw [ofCertificate, hnone] at h
  cases h

private theorem ExtensionSet.exists_request {set : ExtensionSet} (h : ofRequest der = .ok set) :
    ∃ request, CertificateRequest.read? der = some request := by
  refine Option.ne_none_iff_exists'.mp fun hnone => ?_
  rw [ofRequest, hnone] at h
  cases h

theorem Issuer.exists_certificate {issuer : Issuer} (h : ofCertificate der = .ok issuer) :
    ∃ certificate, Certificate.read? der = some certificate := by
  refine Option.ne_none_iff_exists'.mp fun hnone => ?_
  rw [ofCertificate, hnone] at h
  cases h

private theorem PublicKey.exists_bits {key : PublicKey} (h : ofDer der = .ok key) :
    ∃ bits, publicKey? der = some bits := by
  refine Option.ne_none_iff_exists'.mp fun hnone => ?_
  rw [ofDer, hnone] at h
  cases h

private theorem PublicKey.exists_request {key : PublicKey} (h : ofRequest der = .ok key) :
    ∃ request, CertificateRequest.read? der = some request := by
  refine Option.ne_none_iff_exists'.mp fun hnone => ?_
  rw [ofRequest, hnone] at h
  cases h

namespace Input

private theorem exists_certificate {key : PublicKey} (h : certificateKey der = .ok key) :
    ∃ certificate, Certificate.read? der = some certificate := by
  obtain ⟨issuer, hissuer, -⟩ := Reader.map_eq_ok h
  exact Issuer.exists_certificate hissuer

/-! ### One reader after the other -/

/-- Where the first reader refuses what the second one takes, either of them gives the result. -/
private theorem firstOf_eq_ok_iff {first second : Except Error α} {value : α}
    (h : ∀ other, second = .ok other → ∀ another, first ≠ .ok another) :
    firstOf first second = .ok value ↔ first = .ok value ∨ second = .ok value := by
  unfold firstOf
  cases first with
  | error error => simp
  | ok found =>
    have hsecond : second ≠ .ok value := fun hvalue => h value hvalue found rfl
    simp [hsecond]

theorem extensions_eq_ok_iff {set : ExtensionSet} :
    extensions ⟨none, der⟩ = .ok set ↔
      ExtensionSet.ofCertificate der = .ok set ∨ ExtensionSet.ofRequest der = .ok set := by
  refine firstOf_eq_ok_iff fun other hrequest another hcertificate => ?_
  obtain ⟨request, hrequest⟩ := ExtensionSet.exists_request hrequest
  obtain ⟨certificate, hcertificate⟩ := ExtensionSet.exists_certificate hcertificate
  rw [(eq_none_of_certificate hcertificate).1] at hrequest
  cases hrequest

theorem anyKey_eq_ok_iff {key : PublicKey} :
    anyKey der = .ok key ↔
      (PublicKey.ofDer der = .ok key ∨ certificateKey der = .ok key) ∨ PublicKey.ofRequest der = .ok key := by
  have hcertificate : ∀ other, certificateKey der = .ok other → ∀ another, PublicKey.ofDer der ≠ .ok another := by
    intro other hcertificate another hkey
    obtain ⟨certificate, hcertificate⟩ := exists_certificate hcertificate
    obtain ⟨bits, hbits⟩ := PublicKey.exists_bits hkey
    rw [(eq_none_of_certificate hcertificate).2] at hbits
    cases hbits
  have hfirst : ∀ found, firstOf (PublicKey.ofDer der) (certificateKey der) = .ok found ↔
      PublicKey.ofDer der = .ok found ∨ certificateKey der = .ok found := fun _ => firstOf_eq_ok_iff hcertificate
  rw [anyKey, firstOf_eq_ok_iff, hfirst]
  intro other hrequest another hfound
  obtain ⟨request, hrequest⟩ := PublicKey.exists_request hrequest
  obtain hkey | hcertificate := (hfirst another).mp hfound
  · obtain ⟨bits, hbits⟩ := PublicKey.exists_bits hkey
    rw [eq_none_of_request hrequest] at hbits
    cases hbits
  · obtain ⟨certificate, hcertificate⟩ := exists_certificate hcertificate
    rw [(eq_none_of_certificate hcertificate).1] at hrequest
    cases hrequest

theorem toOption_eq_some_iff {ε : Type} {result : Except ε α} {value : α} :
    result.toOption = some value ↔ result = .ok value := by
  cases result <;> simp [Except.toOption]

/-- What the first reader that takes the bytes makes of them. -/
def firstTaken? (readers : List (List UInt8 → Except Error α)) (bytes : List UInt8) : Option α :=
  readers.findSome? fun read => (read bytes).toOption

/-- If what any of the readers gives is the result, their order does not matter. -/
theorem firstTaken?_of_perm {readers order : List (List UInt8 → Except Error α)} {result : Except Error α}
    (h : ∀ value, result = .ok value ↔ ∃ read ∈ readers, read bytes = .ok value) (horder : order.Perm readers) :
    firstTaken? order bytes = result.toOption := by
  have hmem : ∀ read ∈ order, ∀ value, (read bytes).toOption = some value → result = .ok value := by
    intro read hread value hvalue
    exact (h value).mpr ⟨read, horder.mem_iff.mp hread, toOption_eq_some_iff.mp hvalue⟩
  cases hfound : firstTaken? order bytes with
  | some value =>
    obtain ⟨read, hread, hvalue⟩ := List.exists_of_findSome?_eq_some hfound
    rw [hmem read hread value hvalue]
    rfl
  | none =>
    rw [eq_comm, Option.eq_none_iff_forall_ne_some]
    intro value hvalue
    obtain ⟨read, hread, hread_eq⟩ := (h value).mp (toOption_eq_some_iff.mp hvalue)
    have hnone := List.findSome?_eq_none_iff.mp hfound read (horder.mem_iff.mpr hread)
    rw [hread_eq] at hnone
    cases hnone

/-! ### Files -/

/-- What is a sequence in a sequence does not begin as a block. -/
theorem ofBytes_of_fieldTag {index : Nat} {tag : Tag} (h : fieldTag? index der = some tag) :
    ofBytes der = .ok ⟨none, der⟩ := by
  obtain ⟨content, hcontent, -⟩ := Option.bind_eq_some_iff.mp h
  obtain ⟨rest, hsequence⟩ := Parts.within_eq_some_iff.mp hcontent
  obtain ⟨outer, _, houter, -⟩ := Parts.inSequence_eq_some_iff.mp hsequence
  obtain ⟨helement, htag, hform⟩ := Parts.expect_eq_some_iff.mp houter
  obtain ⟨length, behind, hheader⟩ := Parts.header_of_element helement
  rw [htag, hform] at hheader
  obtain ⟨after, hid⟩ := Parts.readIdentifier_of_header hheader
  have hder : der = 0x30 :: after := readIdentifier_eq_ok hid (show Tag.sequence.number < 31 by decide)
  have hblock : isBlock der = false := by
    rw [hder]
    rfl
  rw [ofBytes, hblock]
  rfl

private theorem ofBytes_of_certificate (h : ∃ certificate, Certificate.read? der = some certificate) :
    ofBytes der = .ok ⟨none, der⟩ := by
  obtain ⟨certificate, h⟩ := h
  obtain hversion | ⟨hserial, -⟩ := Certificate.fieldTag?_of_read? h
  · exact ofBytes_of_fieldTag hversion
  · exact ofBytes_of_fieldTag hserial

private theorem ofBytes_of_request (h : ∃ request, CertificateRequest.read? der = some request) :
    ofBytes der = .ok ⟨none, der⟩ := by
  obtain ⟨request, h⟩ := h
  exact ofBytes_of_fieldTag (CertificateRequest.fieldTag?_of_read? h).1

private theorem ofBytes_of_publicKey (h : ∃ bits, publicKey? der = some bits) : ofBytes der = .ok ⟨none, der⟩ := by
  obtain ⟨bits, h⟩ := h
  exact ofBytes_of_fieldTag (fieldTag?_of_publicKey h)

end Input

/-! ### Blocks without headers -/

/-- The symbols in the lines of a block. -/
def Pem.symbols (data : String) : List UInt8 :=
  bytesOf (String.ofList (data.toList.filter fun c => !Text.isBlank c))

private theorem Pem.utf8_bytesOf (text : String) : utf8 (bytesOf text) = .ok text := by
  have hdecode : Text.Utf8.decode? (bytesOf text) = some text := decode?_eq_some_iff.mpr rfl
  rw [utf8, hdecode]

/-- The lines between two boundaries with the same label are read as the bytes that their symbols stand for. -/
private theorem Pem.block_of_label {label data : String} (hlabel : label ≠ "")
    (hdata : Base64.decode (symbols data) = .ok der) :
    Frame.block ⟨bytesOf label, [], bytesOf data, bytesOf label⟩ = .ok ⟨label, der⟩ := by
  have hempty : label.isEmpty = false := by simpa using hlabel
  have hheaders : utf8 [] = .ok "" := utf8_bytesOf ""
  have hcheck : checkHeaders "" = .ok () := by decide
  unfold symbols at hdata
  simp only [Frame.block, utf8_bytesOf, hheaders, Except.bind, bind, hempty, Bool.false_eq_true, if_false, ne_eq,
    not_true_eq_false, hdata, Except.mapError, hcheck]
  rfl

theorem Input.ofBytes_of_frame {label data : String} (hblock : isBlock bytes = true)
    (hframe : Pem.frame? bytes = some ⟨Pem.bytesOf label, [], Pem.bytesOf data, Pem.bytesOf label⟩)
    (hlabel : label ≠ "") (hdata : Base64.decode (Pem.symbols data) = .ok der) : ofBytes bytes = .ok ⟨some label, der⟩ := by
  rw [ofBytes, if_pos hblock, Pem.read, hframe]
  dsimp only
  rw [Pem.block_of_label hlabel hdata]

/-! ### Blocks and their contents -/

private theorem ExtensionSet.ofFile_eq {input : Input} (h : Input.ofBytes bytes = .ok input) :
    ofFile (some bytes) = input.extensions.mapError .contents := by
  rw [ofFile, Input.ofFile, h]
  rfl

theorem PublicKey.ofFile_eq {input : Input} (h : Input.ofBytes bytes = .ok input) (file : String) :
    ofFile file (some bytes) = input.publicKey file := by
  rw [ofFile, Input.ofFile, h]
  rfl

theorem Issuer.ofFile_eq {input : Input} (h : Input.ofBytes bytes = .ok input) :
    ofFile (some bytes) = input.issuer.mapError .contents := by
  rw [ofFile, Input.ofFile, h]
  rfl

/-! ### The contents of a block by themselves -/

variable {label : String}

theorem ExtensionSet.ofFile_of_read {set : ExtensionSet} (h : ofCertificate der = .ok set ∨ ofRequest der = .ok set) :
    ofFile (some der) = .ok set := by
  have hraw : Input.ofBytes der = .ok ⟨none, der⟩ := by
    obtain hcertificate | hrequest := h
    · exact Input.ofBytes_of_certificate (exists_certificate hcertificate)
    · exact Input.ofBytes_of_request (exists_request hrequest)
  rw [ofFile_eq hraw, Reader.mapError_eq_ok_iff]
  exact Input.extensions_eq_ok_iff.mpr h

private theorem ExtensionSet.ofFile_contents (h : Input.ofBytes bytes = .ok ⟨some label, der⟩) {set : ExtensionSet}
    (hset : ofFile (some bytes) = .ok set) : ofFile (some der) = .ok set := by
  rw [ofFile_eq h, Reader.mapError_eq_ok_iff] at hset
  unfold Input.extensions at hset
  dsimp only at hset
  split at hset
  · exact ofFile_of_read (.inr hset)
  · exact ofFile_of_read (.inl hset)

private theorem PublicKey.ofFile_contents (h : Input.ofBytes bytes = .ok ⟨some label, der⟩) {file : String}
    {key : PublicKey}
    (hkey : ofFile file (some bytes) = .ok key) (other : String) : ofFile other (some der) = .ok key := by
  rw [ofFile_eq h] at hkey
  have hread : (ofDer der = .ok key ∨ Input.certificateKey der = .ok key) ∨ ofRequest der = .ok key := by
    unfold Input.publicKey at hkey
    dsimp only at hkey
    split at hkey
    · exact .inl (.inl (Reader.mapError_eq_ok_iff.mp hkey))
    · split at hkey
      · exact .inl (.inr (Reader.mapError_eq_ok_iff.mp hkey))
      · split at hkey
        · exact .inr (Reader.mapError_eq_ok_iff.mp hkey)
        · cases hkey
  have hraw : Input.ofBytes der = .ok ⟨none, der⟩ := by
    obtain (hbits | hcertificate) | hrequest := hread
    · exact Input.ofBytes_of_publicKey (exists_bits hbits)
    · exact Input.ofBytes_of_certificate (Input.exists_certificate hcertificate)
    · exact Input.ofBytes_of_request (exists_request hrequest)
  rw [ofFile_eq hraw]
  exact Reader.mapError_eq_ok_iff.mpr (Input.anyKey_eq_ok_iff.mpr hread)

private theorem Issuer.ofFile_contents (h : Input.ofBytes bytes = .ok ⟨some label, der⟩) {issuer : Issuer}
    (hissuer : ofFile (some bytes) = .ok issuer) : ofFile (some der) = .ok issuer := by
  rw [ofFile_eq h] at hissuer
  have hread : ofCertificate der = .ok issuer := Reader.mapError_eq_ok_iff.mp hissuer
  rw [ofFile_eq (Input.ofBytes_of_certificate (exists_certificate hread))]
  exact hissuer

/-- A block and a file with its contents alone give the same; no bytes are taken by two of the readers, and without
a label these can be tried in any order. -/
theorem contents_read_alike (h : Input.ofBytes bytes = .ok ⟨some label, der⟩) :
    ((∀ set, ExtensionSet.ofFile (some bytes) = .ok set → ExtensionSet.ofFile (some der) = .ok set) ∧
      (∀ file other key, PublicKey.ofFile file (some bytes) = .ok key →
        PublicKey.ofFile other (some der) = .ok key) ∧
      ∀ issuer, Issuer.ofFile (some bytes) = .ok issuer → Issuer.ofFile (some der) = .ok issuer) ∧
    ∀ content : List UInt8,
      [(Certificate.read? content).isSome, (CertificateRequest.read? content).isSome,
        (publicKey? content).isSome].count true ≤ 1 ∧
      (∀ order : List (List UInt8 → Except Error ExtensionSet),
        order.Perm [ExtensionSet.ofCertificate, ExtensionSet.ofRequest] →
          Input.firstTaken? order content = (Input.extensions ⟨none, content⟩).toOption) ∧
      ∀ (order : List (List UInt8 → Except Error PublicKey)) (file : String),
        order.Perm [PublicKey.ofDer, Input.certificateKey, PublicKey.ofRequest] →
          Input.firstTaken? order content = (Input.publicKey file ⟨none, content⟩).toOption := by
  refine ⟨⟨fun set hset => ExtensionSet.ofFile_contents h hset,
    fun file other key hkey => PublicKey.ofFile_contents h hkey other,
    fun issuer hissuer => Issuer.ofFile_contents h hissuer⟩, fun content => ⟨count_accepted_le content, ?_, ?_⟩⟩
  · intro order horder
    refine Input.firstTaken?_of_perm (fun set => ?_) horder
    rw [Input.extensions_eq_ok_iff]
    simp only [List.mem_cons, List.not_mem_nil, or_false, exists_eq_or_imp, exists_eq_left]
  · intro order file horder
    have hkey : (Input.publicKey file ⟨none, content⟩).toOption = (Input.anyKey content).toOption := by
      rw [Input.publicKey]
      cases Input.anyKey content <;> rfl
    rw [hkey]
    refine Input.firstTaken?_of_perm (fun key => ?_) horder
    rw [Input.anyKey_eq_ok_iff, or_assoc]
    simp only [List.mem_cons, List.not_mem_nil, or_false, exists_eq_or_imp, exists_eq_left]

/-- A block with a small certificate whose one extension is a subject key identifier. -/
def smallBlock : List UInt8 :=
  Pem.bytesOf <|
    "\n-----BEGIN CERTIFICATE-----\n" ++
    "MFUwSgIBKjAEBgIqAzAAMB4XDTI0MDEwMTAwMDAwMFoXDTI0MDEwMTAwMDAwMFow\n" ++
    "ADAKMAQGAioDAwIAB6MPMA0wCwYDVR0OBAQEAgECMAQGAioDAwEA\n" ++
    "-----END CERTIFICATE-----\n"

/-- The lines in `smallBlock`. -/
def smallBlockData : String :=
  "MFUwSgIBKjAEBgIqAzAAMB4XDTI0MDEwMTAwMDAwMFoXDTI0MDEwMTAwMDAwMFow\n" ++
  "ADAKMAQGAioDAwIAB6MPMA0wCwYDVR0OBAQEAgECMAQGAioDAwEA\n"

theorem decode_smallBlockData :
    Base64.decode (Pem.symbols smallBlockData) =
      .ok (smallCertificate [48, 13, 48, 11, 6, 3, 85, 29, 14, 4, 4, 4, 2, 1, 2]) := by
  decide +kernel

theorem Input.ofBytes_smallBlock :
    ofBytes smallBlock =
      .ok ⟨some "CERTIFICATE", smallCertificate [48, 13, 48, 11, 6, 3, 85, 29, 14, 4, 4, 4, 2, 1, 2]⟩ :=
  ofBytes_of_frame (by decide) (by decide +kernel) (by decide) decode_smallBlockData

theorem contents_read_alike_smallCertificate :
    let der := smallCertificate [48, 13, 48, 11, 6, 3, 85, 29, 14, 4, 4, 4, 2, 1, 2]
    let set := ExtensionSet.empty.insert ⟨"2.5.29.14", false, [4, 4, 4, 2, 1, 2]⟩
    Input.ofBytes smallBlock = .ok ⟨some "CERTIFICATE", der⟩ ∧
      (ExtensionSet.ofFile (some smallBlock) = .ok set ∧ ExtensionSet.ofFile (some der) = .ok set) ∧
      (PublicKey.ofFile "ca.pem" (some smallBlock) = .ok ⟨[7]⟩ ∧ PublicKey.ofFile "ca.der" (some der) = .ok ⟨[7]⟩) ∧
      ∃ issuer, Issuer.ofFile (some smallBlock) = .ok issuer ∧ Issuer.ofFile (some der) = .ok issuer := by
  intro der set
  have hblock : Input.ofBytes smallBlock = .ok ⟨some "CERTIFICATE", der⟩ := Input.ofBytes_smallBlock
  obtain ⟨⟨hextensions, hkeys, hissuers⟩, -⟩ := contents_read_alike hblock
  have hset : ExtensionSet.ofFile (some smallBlock) = .ok set := by
    rw [ExtensionSet.ofFile_eq hblock]
    decide
  have hkey : PublicKey.ofFile "ca.pem" (some smallBlock) = .ok ⟨[7]⟩ := by
    rw [PublicKey.ofFile_eq hblock]
    rfl
  have hissuer : (Issuer.ofCertificate der).toOption.isSome = true := rfl
  obtain ⟨issuer, hissuer⟩ := Option.isSome_iff_exists.mp hissuer
  have hread : Issuer.ofFile (some smallBlock) = .ok issuer := by
    rw [Issuer.ofFile_eq hblock]
    exact Reader.mapError_eq_ok_iff.mpr (Input.toOption_eq_some_iff.mp hissuer)
  exact ⟨hblock, ⟨hset, hextensions set hset⟩, ⟨hkey, hkeys _ _ _ hkey⟩, issuer, hread, hissuers issuer hread⟩

end CertExtensions
