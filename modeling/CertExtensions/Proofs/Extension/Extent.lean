import CertExtensions.Extension.Basic
import CertExtensions.Proofs.Asn1.Extent

/-!
# Values with bytes too many or too few

A type that is not dumped is shown through a schema, or as a number whatever its bytes are (`exists_schema`). A schema
reads one element that is all of the octets, so for each of these types the octets that can be shown are not the start
of others that can (`text_extent`): with more bytes they are refused as too many, and with fewer as too few.
-/

namespace CertExtensions

open Asn1

/-! ### Types that are read by a schema -/

namespace ExtensionType

variable {type : ExtensionType}

/-- Only the serial number of a card is shown as a number whatever it holds. -/
private theorem eq_iccsn_of_presentation (h : type.presentation = .number) : type = .iccsn := by
  cases type with
  | iccsn => rfl
  | _ => cases h

theorem exists_schema (hnumber : type ≠ .iccsn) (hdump : type.presentation ≠ .dump) :
    ∃ schema, type.presentation = .structured schema := by
  cases h : type.presentation with
  | dump => exact absurd h hdump
  | number => exact absurd (eq_iccsn_of_presentation h) hnumber
  | structured schema => exact ⟨schema, rfl⟩

end ExtensionType

namespace Extension

variable {extension : Extension} {type : ExtensionType} {schema : Schema Outline} {octets : List UInt8}

theorem text_of_schema (htype : extension.type? = some type) (hschema : type.presentation = .structured schema)
    (hvalue : octetString.whole extension.value = .ok octets) (style : LayoutStyle) :
    extension.text style = (schema.whole octets).map (·.layOut style) := by
  have hpresentation : extension.presentation = .structured schema := by
    rw [presentation, htype]
    exact hschema
  rw [text_eq hvalue, hpresentation, Presentation.body]
  cases schema.whole octets <;> rfl

/-- The octets of a value that can be shown are one element, so those of no other value of the type that can be shown
are behind or in front of them. -/
theorem text_extent (hnumber : type ≠ .iccsn) (hdump : type.presentation ≠ .dump)
    (htype : extension.type? = some type) {content : List UInt8}
    (hvalue : octetString.whole extension.value = .ok content) {style : LayoutStyle} {text : String}
    (htext : extension.text style = .ok text) :
    ∀ (other : Extension) (octets : List UInt8) (style : LayoutStyle), other.type? = some type →
      octetString.whole other.value = .ok octets →
        (∀ more, more ≠ [] → octets = content ++ more → other.text style = .error .extra) ∧
        (octets <+: content → octets ≠ content → other.text style = .error .eof) ∧
        (∀ shown, other.text style = .ok shown → octets <+: content ∨ content <+: octets → octets = content) := by
  obtain ⟨schema, hschema⟩ := type.exists_schema hnumber hdump
  rw [text_of_schema htype hschema hvalue] at htext
  obtain ⟨lines, hlines, -⟩ := Reader.map_eq_ok htext
  intro other octets style hother hoctets
  rw [text_of_schema hother hschema hoctets]
  have hmore : ∀ more, more ≠ [] → octets = content ++ more → schema.whole octets = .error .extra := by
    rintro more hmore rfl
    exact Schema.whole_append_of_ok hlines hmore
  have hfront : octets <+: content → octets ≠ content → schema.whole octets = .error .eof :=
    fun hprefix hne => Schema.whole_front hlines hprefix hne
  refine ⟨?_, ?_, ?_⟩
  · intro more hne heq
    rw [hmore more hne heq]
    rfl
  · intro hprefix hne
    rw [hfront hprefix hne]
    rfl
  · intro shown hshown hprefix
    by_contra hne
    rcases hprefix with hprefix | ⟨more, heq⟩
    · rw [hfront hprefix hne] at hshown
      cases hshown
    · have hnonempty : more ≠ [] := by
        rintro rfl
        exact hne (by rw [← heq, List.append_nil])
      rw [hmore more hnonempty heq.symm] at hshown
      cases hshown

/-- An authority key identifier without an issuer, then with a byte more and with a byte less. -/
theorem text_extent_keyIdentifier :
    let value (content : List UInt8) : Extension := ⟨"2.5.29.35", true, primitive .octetString content⟩
    (value [0x30, 6, 0x80, 1, 7, 0x82, 1, 9]).text ⟨false, ""⟩ =
        .ok "Key Identifier: 0x0007\nCertificate Serial Number: 0x0009\n" ∧
      (value [0x30, 6, 0x80, 1, 7, 0x82, 1, 9, 0]).text ⟨true, " "⟩ = .error .extra ∧
      (value [0x30, 6, 0x80, 1, 7, 0x82, 1]).text ⟨true, " "⟩ = .error .eof := by
  intro value
  have htext : (value [0x30, 6, 0x80, 1, 7, 0x82, 1, 9]).text ⟨false, ""⟩ =
      .ok "Key Identifier: 0x0007\nCertificate Serial Number: 0x0009\n" := by decide
  have htype : (value [0x30, 6, 0x80, 1, 7, 0x82, 1, 9]).type? = some .authorityKeyIdentifier := rfl
  have hdump : ExtensionType.authorityKeyIdentifier.presentation ≠ .dump := nofun
  have hextent := text_extent (by decide) hdump htype rfl htext
  obtain ⟨hmore, -, -⟩ := hextent (value [0x30, 6, 0x80, 1, 7, 0x82, 1, 9, 0]) _ ⟨true, " "⟩ rfl rfl
  obtain ⟨-, hfront, -⟩ := hextent (value [0x30, 6, 0x80, 1, 7, 0x82, 1]) _ ⟨true, " "⟩ rfl rfl
  exact ⟨htext, hmore [0] (by decide) rfl, hfront (by decide) (by decide)⟩

end Extension

end CertExtensions
