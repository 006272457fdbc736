import CertExtensions.Proofs.Asn1.BitString
import CertExtensions.Proofs.Extension.Rendering

/-!
# Texts of bit strings

Two types of extensions show a bit string as a number in base 2. The number is that of the bytes of the string, so zeros
stand behind its bits for those of the last byte that are unused (`Extension.bits_text`): it is the number of the bits
where there are none, or where no bit is set.
-/

namespace CertExtensions

open Asn1 Outline

namespace Extension

variable {extension : Extension} {bits : List Bool}

/-- The types that are shown as a number in base 2. -/
def IsBitNumber (extension : Extension) : Prop :=
  extension.type? = some .vsTokenType ∨ extension.type? = some .vsUnknown

/-- A bit string is shown as the number of its bits and as many zeros as bits are unused. That is the number of its bits
just if it fills its bytes, or has no bit that is set. -/
theorem bits_text (htype : extension.IsBitNumber)
    (hvalue : extension.value ∈ leaf .octetString (leaf .bitString (bitContents bits)))
    (hlt : extension.value.length < wordLimit) (style : LayoutStyle) :
    extension.text style = .ok (base2 (bitsNumber bits * 2 ^ unusedBits bits.length) ++ "\n") ∧
      (extension.text style = .ok (base2 (bitsNumber bits) ++ "\n") ↔ bits.length % 8 = 0 ∨ bitsNumber bits = 0) := by
  have hpresentation : extension.presentation = .ofType bitString fun bits => line 0 bits.binary := by
    rcases htype with h | h <;> rw [presentation, h] <;> rfl
  obtain ⟨octets, hleaf, hshort, hoctets⟩ := octets_of_mem hvalue hlt
  obtain ⟨content, hcontent, helement⟩ := mem_leaf.mp hleaf
  obtain ⟨bytes, hdecode, hnumber⟩ := decodeBits_of_mem hcontent
  have hwhole : bitString.whole octets = .ok ⟨bytes, bits.length⟩ :=
    (TaggedType.whole_eq_ok_iff (show Tag.bitString.number < 31 by decide)).mpr
      ⟨TaggedType.isEncoding_ofContent_iff.mpr ⟨content, helement, hdecode⟩, hshort⟩
  have htext : extension.text style = .ok (base2 (bitsNumber bits * 2 ^ unusedBits bits.length) ++ "\n") := by
    have hschema : bitString.schema.whole octets = .ok ⟨bytes, bits.length⟩ := hwhole
    rw [text_eq hoctets, hpresentation, Presentation.ofType, Presentation.body, Schema.whole_map, hschema]
    refine congrArg Except.ok ((layOut_line style _).trans ?_)
    rw [Bits.binary_eq, hnumber]
  refine ⟨htext, ?_⟩
  rw [htext]
  constructor
  · intro h
    have hsame := base2_injective ((String.append_left_inj "\n").mp (Except.ok.inj h))
    by_cases hzero : bitsNumber bits = 0
    · exact .inr hzero
    · have hpow : 2 ^ unusedBits bits.length = 1 :=
        Nat.eq_of_mul_eq_mul_left (Nat.pos_of_ne_zero hzero) (hsame.trans (Nat.mul_one _).symm)
      have hnone := (Nat.pow_eq_one.mp hpow).resolve_left (by decide)
      unfold unusedBits at hnone
      exact .inl (by omega)
  · rintro (hfull | hzero)
    · have hnone : unusedBits bits.length = 0 := by
        unfold unusedBits
        omega
      rw [hnone, Nat.pow_zero, Nat.mul_one]
    · rw [hzero, Nat.zero_mul]

theorem bits_text_twoBytes :
    let extension : Extension := ⟨"2.16.840.1.113733.1.6.13", false, [4, 5, 3, 3, 0, 0, 5]⟩
    let bits : List Bool := List.replicate 13 false ++ [true, false, true]
    extension.IsBitNumber ∧ extension.value ∈ leaf .octetString (leaf .bitString (bitContents bits)) ∧
      extension.value.length < wordLimit ∧ extension.text {} = .ok "101\n" := by
  intro extension bits
  have htype : extension.IsBitNumber := .inr rfl
  have hcontent : [0, 0, 5] ∈ bitContents bits := ⟨[0, 5], by decide, by decide⟩
  have hvalue : extension.value ∈ leaf .octetString (leaf .bitString (bitContents bits)) :=
    make_mem_leaf (make_mem_leaf hcontent (by decide) .bitString) (by decide) .octetString
  have hlt : extension.value.length < wordLimit := by decide
  refine ⟨htype, hvalue, hlt, ?_⟩
  rw [(bits_text htype hvalue hlt {}).2.mpr (.inl (by decide))]
  decide

/-- One bit that is set is not shown as the number one: zeros for the seven unused bits stand behind it. -/
theorem bits_text_oneBit :
    let extension : Extension := ⟨"2.16.840.1.113733.1.6.8", false, [4, 4, 3, 2, 7, 128]⟩
    extension.IsBitNumber ∧ extension.value ∈ leaf .octetString (leaf .bitString (bitContents [true])) ∧
      extension.text {} = .ok "10000000\n" ∧ base2 (bitsNumber [true]) = "1" := by
  intro extension
  have hcontent : [7, 128] ∈ bitContents [true] := ⟨[128], rfl, rfl⟩
  refine ⟨.inl rfl, make_mem_leaf (make_mem_leaf hcontent (by decide) .bitString) (by decide) .octetString, ?_, ?_⟩
  · decide
  · decide

end Extension

end CertExtensions
