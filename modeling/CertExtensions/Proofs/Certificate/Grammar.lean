import CertExtensions.Proofs.Asn1.AcceptedElement
import CertExtensions.Proofs.Certificate.Parts

/-!
# Three grammars without a common word

A certificate, a request and a public key are sequences whose first element is a sequence again, and the tags of its
fields tell them apart. A public key starts with an object identifier. A certificate starts with a version or a serial
number and a request with a version; behind three fields, a certificate without version has a sequence of times where a
request has its attributes. So no byte string is read as two of the three (`count_accepted_le`).
-/

namespace CertExtensions

open Asn1 Parts

variable {α β : Type} {bytes content rest after : List UInt8}

/-! ### Tags of fields -/

namespace Parts

/-- The tag of the element behind the next `index` ones. -/
def tagAt : Nat → Parts Tag
  | 0 => do
    let (id, _) ← header
    return id.tag
  | index + 1 => do
    let _ ← element
    tagAt index

private theorem within_tagAt_of_header {id : Identifier} {length : Nat} (h : header bytes = some ((id, length), rest)) :
    (tagAt 0).within bytes = some id.tag := by
  rw [within_eq_some_iff]
  refine ⟨rest, ?_⟩
  rw [tagAt, bind_of_some h]
  rfl

private theorem within_tagAt_zero {found : Element} (h : element bytes = some (found, rest)) :
    (tagAt 0).within bytes = some found.tag := by
  obtain ⟨length, behind, hheader⟩ := header_of_element h
  exact within_tagAt_of_header hheader

private theorem within_tagAt_succ {found : Element} (h : element bytes = some (found, rest)) (index : Nat) :
    (tagAt (index + 1)).within bytes = (tagAt index).within rest := by
  unfold within StateT.run
  rw [tagAt, bind_of_some h]

end Parts

/-- The content of the first element, which is a sequence in a sequence. -/
def firstContent? (bytes : List UInt8) : Option (List UInt8) :=
  Parts.within
    (inSequence do
      let first ← expect .sequence true
      return first.content)
    bytes

/-- The tag of a field of the first element. -/
def fieldTag? (index : Nat) (bytes : List UInt8) : Option Tag :=
  (firstContent? bytes).bind (tagAt index).within

/-- What reads the first element as a sequence reads its content, and goes on behind it. -/
theorem exists_fields {fields : Parts α} {next : α → Parts β} {value : β}
    (h : (inSequence (inSequence fields >>= next)).within bytes = some value) :
    ∃ content found after, firstContent? bytes = some content ∧ fields content = some (found, after) ∧
      ∃ behind last, next found behind = some (value, last) := by
  obtain ⟨rest, h⟩ := within_eq_some_iff.mp h
  obtain ⟨outer, last, houter, hparts⟩ := inSequence_eq_some_iff.mp h
  obtain ⟨found, behind, hinner, hnext⟩ := of_bind_eq_some hparts
  obtain ⟨inner, after, hexpect, hfields⟩ := inSequence_eq_some_iff.mp hinner
  refine ⟨inner.content, found, after, within_eq_some_iff.mpr ⟨rest, ?_⟩, hfields, behind, last, hnext⟩
  refine inSequence_eq_some_iff.mpr ⟨outer, behind, houter, ?_⟩
  rw [bind_of_some hexpect]
  rfl

/-! ### Public keys -/

theorem fieldTag?_of_publicKey {key : List UInt8} (h : publicKey? bytes = some key) :
    fieldTag? 0 bytes = some .objectIdentifier := by
  obtain ⟨content, _, _, hcontent, hfields, -⟩ := exists_fields h
  obtain ⟨identifier, _, hidentifier, -⟩ := of_bind_eq_some hfields
  obtain ⟨helement, htag, -⟩ := expect_eq_some_iff.mp hidentifier
  rw [fieldTag?, hcontent, Option.bind_some, within_tagAt_zero helement, htag]

/-! ### Certificates -/

namespace Certificate

private theorem versionPart_eq_some {found : Unit} (h : versionPart bytes = some (found, rest)) :
    rest = bytes ∨ ∃ version, element bytes = some (version, rest) ∧ version.tag = .context 0 := by
  obtain ⟨version?, behind, hoptional, hnumber⟩ := of_bind_eq_some h
  obtain ⟨rfl, rfl⟩ | ⟨version, rfl, helement, htag⟩ := optional_eq_some hoptional
  · cases hnumber
    exact .inl rfl
  · obtain ⟨number, after, hlift, hpure⟩ := of_bind_eq_some hnumber
    cases hpure
    obtain ⟨-, rfl⟩ := of_lift_eq_some hlift
    exact .inr ⟨version, helement, htag⟩

/-- What a certificate starts with: a version, or three fields in front of the times. -/
private theorem tagAt_of_fieldsPart {certificate : Certificate} (h : fieldsPart bytes = some (certificate, rest)) :
    (tagAt 0).within bytes = some (.context 0) ∨
      (tagAt 0).within bytes = some .integer ∧ (tagAt 3).within bytes = some .sequence := by
  obtain ⟨_, atSerial, hversion, h⟩ := of_bind_eq_some h
  obtain ⟨serial, atCheck, hserial, h⟩ := of_bind_eq_some h
  obtain ⟨_, atAlgorithm, hcheck, h⟩ := of_bind_eq_some h
  obtain ⟨_, atIssuer, halgorithm, h⟩ := of_bind_eq_some h
  obtain ⟨_, atTimes, hissuer, h⟩ := of_bind_eq_some h
  obtain ⟨_, atSubject, htimes, -⟩ := of_bind_eq_some h
  obtain ⟨hinteger, rfl⟩ := of_guard_eq_some hcheck
  obtain ⟨_, _, halgorithm, -⟩ := inSequence_eq_some_iff.mp halgorithm
  obtain ⟨times, _, htimes, -⟩ := inSequence_eq_some_iff.mp htimes
  obtain ⟨halgorithm, -⟩ := expect_eq_some_iff.mp halgorithm
  obtain ⟨hissuer, -⟩ := expect_eq_some_iff.mp hissuer
  obtain ⟨htimes, hsequence, -⟩ := expect_eq_some_iff.mp htimes
  obtain rfl | ⟨version, helement, htag⟩ := versionPart_eq_some hversion
  · right
    rw [within_tagAt_zero hserial, within_tagAt_succ hserial, within_tagAt_succ halgorithm, within_tagAt_succ hissuer,
      within_tagAt_zero htimes, hinteger, hsequence]
    exact ⟨rfl, rfl⟩
  · left
    rw [within_tagAt_zero helement, htag]

theorem fieldTag?_of_read? {certificate : Certificate} (h : read? bytes = some certificate) :
    fieldTag? 0 bytes = some (.context 0) ∨
      fieldTag? 0 bytes = some .integer ∧ fieldTag? 3 bytes = some .sequence := by
  obtain ⟨content, _, _, hcontent, hparts, -⟩ := exists_fields h
  obtain ⟨fields, rest, hfields, -⟩ := of_bind_eq_some hparts
  rw [fieldTag?, fieldTag?, hcontent]
  exact tagAt_of_fieldsPart hfields

end Certificate

/-! ### Requests -/

private theorem Parts.number_eq_some {n : Nat} (h : number bytes = some (n, rest)) :
    ∃ found, element bytes = some (found, rest) ∧ found.tag = .integer := by
  obtain ⟨found, behind, hexpect, hdecode⟩ := of_bind_eq_some h
  obtain ⟨helement, htag, -⟩ := expect_eq_some_iff.mp hexpect
  cases hvalue : decodeUInt64 found.content with
  | error fault =>
    rw [hvalue] at hdecode
    cases hdecode
  | ok m =>
    rw [hvalue] at hdecode
    dsimp only at hdecode
    split at hdecode
    · cases hdecode
      exact ⟨found, helement, htag⟩
    · cases hdecode

theorem CertificateRequest.fieldTag?_of_read? {request : CertificateRequest} (h : read? bytes = some request) :
    fieldTag? 0 bytes = some .integer ∧ fieldTag? 3 bytes = some (.context 0) := by
  obtain ⟨content, _, _, hcontent, h, -⟩ := exists_fields h
  obtain ⟨_, atSubject, hversion, h⟩ := of_bind_eq_some h
  obtain ⟨_, atKey, hsubject, h⟩ := of_bind_eq_some h
  obtain ⟨_, atAttributes, hkey, h⟩ := of_bind_eq_some h
  obtain ⟨_, _, hattributes, -⟩ := of_bind_eq_some h
  obtain ⟨⟨id, length⟩, _, hheader, hattributes⟩ := of_bind_eq_some hattributes
  obtain ⟨_, _, hcheck, -⟩ := of_bind_eq_some hattributes
  obtain ⟨hcontext, -⟩ := of_guard_eq_some hcheck
  obtain ⟨version, hversion, hinteger⟩ := number_eq_some hversion
  obtain ⟨hsubject, -⟩ := expect_eq_some_iff.mp hsubject
  obtain ⟨_, _, hkey, -⟩ := inSequence_eq_some_iff.mp hkey
  obtain ⟨hkey, -⟩ := expect_eq_some_iff.mp hkey
  rw [fieldTag?, fieldTag?, hcontent, Option.bind_some, Option.bind_some, within_tagAt_zero hversion,
    within_tagAt_succ hversion, within_tagAt_succ hsubject, within_tagAt_succ hkey, within_tagAt_of_header hheader,
    hinteger, hcontext]
  exact ⟨rfl, rfl⟩

/-! ### No two of the three -/

/-- What is read as a certificate is not read as anything else. -/
theorem eq_none_of_certificate {certificate : Certificate} (h : Certificate.read? bytes = some certificate) :
    CertificateRequest.read? bytes = none ∧ publicKey? bytes = none := by
  constructor
  · refine Option.eq_none_iff_forall_ne_some.mpr fun request hrequest => ?_
    obtain ⟨hfirst, hfourth⟩ := CertificateRequest.fieldTag?_of_read? hrequest
    obtain hversion | ⟨-, htimes⟩ := Certificate.fieldTag?_of_read? h
    · rw [hfirst] at hversion
      exact absurd hversion (by decide)
    · rw [hfourth] at htimes
      exact absurd htimes (by decide)
  · refine Option.eq_none_iff_forall_ne_some.mpr fun key hkey => ?_
    have hfirst := fieldTag?_of_publicKey hkey
    obtain hversion | ⟨hserial, -⟩ := Certificate.fieldTag?_of_read? h
    · rw [hfirst] at hversion
      exact absurd hversion (by decide)
    · rw [hfirst] at hserial
      exact absurd hserial (by decide)

theorem eq_none_of_request {request : CertificateRequest} (h : CertificateRequest.read? bytes = some request) :
    publicKey? bytes = none := by
  refine Option.eq_none_iff_forall_ne_some.mpr fun key hkey => ?_
  have hfirst := (CertificateRequest.fieldTag?_of_read? h).1
  rw [fieldTag?_of_publicKey hkey] at hfirst
  exact absurd hfirst (by decide)

/-- At most one of the three readers takes the bytes. -/
theorem count_accepted_le (bytes : List UInt8) :
    [(Certificate.read? bytes).isSome, (CertificateRequest.read? bytes).isSome, (publicKey? bytes).isSome].count true
      ≤ 1 := by
  cases hcertificate : Certificate.read? bytes with
  | some certificate =>
    obtain ⟨hrequest, hkey⟩ := eq_none_of_certificate hcertificate
    simp [hrequest, hkey]
  | none =>
    cases hrequest : CertificateRequest.read? bytes with
    | some request => simp [eq_none_of_request hrequest]
    | none => cases publicKey? bytes <;> simp

end CertExtensions
