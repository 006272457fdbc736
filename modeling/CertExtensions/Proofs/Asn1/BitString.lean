import CertExtensions.Asn1.Primitive
import CertExtensions.Proofs.Asn1.Encodings
import CertExtensions.Proofs.Text.Digits
import Mathlib.Data.List.Induction
import Mathlib.Tactic.Ring

/-!
# Bit strings

The content of a bit string has its bits in bytes from the top on, and the last byte may have up to seven bits more that
are not set and do not belong to it (`bitContents`). The bytes form the number of the bits with as many zeros behind it
(`value_of_octetBits`), and that is the number which is shown in base 2 (`Bits.binary_eq`).
-/

open Computability

namespace CertExtensions.Asn1

/-! ### Numbers of bits -/

/-- The number whose base 2 digits are the bits. -/
def bitsNumber (bits : List Bool) : Nat :=
  bits.foldl (fun n bit => 2 * n + bit.toNat) 0

/-- The numeral of a number in base 2: no leading zeros, and one digit for zero. -/
def base2 (n : Nat) : String :=
  String.ofList (Nat.toDigits 2 n)

variable {bits : List Bool}

private theorem bitsNumber_append_singleton (bits : List Bool) (bit : Bool) :
    bitsNumber (bits ++ [bit]) = 2 * bitsNumber bits + bit.toNat := by
  unfold bitsNumber
  rw [List.foldl_append]
  rfl

private theorem bitsNumber_append (front back : List Bool) :
    bitsNumber (front ++ back) = bitsNumber front * 2 ^ back.length + bitsNumber back := by
  induction back using List.reverseRecOn with
  | nil => simp [bitsNumber]
  | append_singleton back bit ih =>
    rw [← List.append_assoc, bitsNumber_append_singleton, bitsNumber_append_singleton, ih, List.length_append,
      List.length_singleton, Nat.pow_succ]
    ring

private theorem bitsNumber_zeros (n : Nat) : bitsNumber (List.replicate n false) = 0 := by
  induction n with
  | zero => rfl
  | succ n ih => rw [List.replicate_succ', bitsNumber_append_singleton, ih]; rfl

theorem base2_injective : Function.Injective base2 := by
  intro m n h
  have hdigits : Nat.toDigits 2 m = Nat.toDigits 2 n := String.ofList_injective h
  exact Text.toDigits_injective (by decide) (by decide) hdigits

/-! ### Digits -/

def bitDigit (bit : Bool) : Char :=
  if bit then '1' else '0'

private theorem bitDigit_eq (bit : Bool) : [bitDigit bit] = Nat.toDigits 2 bit.toNat := by
  cases bit <;> rfl

/-- The digits of bits without leading zeros are those of their number, and none if that is zero. -/
private theorem dropWhile_bitDigits (bits : List Bool) :
    (bits.map bitDigit).dropWhile (· == '0') =
      if bitsNumber bits = 0 then [] else Nat.toDigits 2 (bitsNumber bits) := by
  induction bits using List.reverseRecOn with
  | nil => rfl
  | append_singleton bits bit ih =>
    rw [List.map_append, List.dropWhile_append, ih, bitsNumber_append_singleton]
    by_cases hzero : bitsNumber bits = 0
    · rw [hzero]
      cases bit <;> rfl
    · have hdigit : bit.toNat < 2 := bit.toNat_lt
      have hne : Nat.toDigits 2 (bitsNumber bits) ≠ [] := Nat.toDigits_ne_nil
      have hempty : (Nat.toDigits 2 (bitsNumber bits)).isEmpty = false := List.isEmpty_eq_false_iff.mpr hne
      have hdouble : 2 * bitsNumber bits + bit.toNat ≠ 0 := by omega
      have happend := Nat.toDigits_append_toDigits (b := 2) (by decide) (Nat.pos_of_ne_zero hzero) hdigit
      simp only [hzero, hdouble, ↓reduceIte, hempty, Bool.false_eq_true, List.map_cons, List.map_nil, bitDigit_eq]
      exact happend

/-! ### Octets -/

/-- The bits of a byte, the top one first. -/
def octetBits (octet : UInt8) : List Bool :=
  (List.range 8).map fun i => octet.toNat.testBit (7 - i)

theorem length_octetBits (octet : UInt8) : (octetBits octet).length = 8 := rfl

private theorem octetDigits_eq (octet : UInt8) : octetDigits octet = (octetBits octet).map bitDigit := by
  unfold octetDigits octetBits
  rw [List.map_map]
  rfl

private theorem bitsNumber_octetBits (octet : UInt8) : bitsNumber (octetBits octet) = octet.toNat := by
  have hall : ∀ n : Fin 256, bitsNumber ((List.range 8).map fun i => n.val.testBit (7 - i)) = n.val := by decide +kernel
  exact hall ⟨octet.toNat, octet.toNat_lt⟩

theorem length_flatMap_octetBits (octets : List UInt8) : (octets.flatMap octetBits).length = 8 * octets.length := by
  induction octets with
  | nil => rfl
  | cons octet octets ih =>
    rw [List.flatMap_cons, List.length_append, length_octetBits, ih, List.length_cons]
    omega

/-- The bits of bytes are those of the number that the bytes form. -/
private theorem bitsNumber_flatMap_octetBits (octets : List UInt8) :
    bitsNumber (octets.flatMap octetBits) = BigEndian.value octets := by
  induction octets using List.reverseRecOn with
  | nil => rfl
  | append_singleton octets octet ih =>
    rw [List.flatMap_append, List.flatMap_singleton, bitsNumber_append, ih, bitsNumber_octetBits, length_octetBits,
      BigEndian.value_append_singleton]
    omega

/-- What is shown of bits is the number that their bytes form. -/
theorem Bits.binary_eq (bits : Bits) : bits.binary = base2 (BigEndian.value bits.octets) := by
  have hdigits : bits.octets.flatMap octetDigits = (bits.octets.flatMap octetBits).map bitDigit := by
    rw [List.map_flatMap]
    exact congrArg (bits.octets.flatMap ·) (funext octetDigits_eq)
  have hnonempty : (Nat.toDigits 2 (BigEndian.value bits.octets)).isEmpty = false :=
    List.isEmpty_eq_false_iff.mpr Nat.toDigits_ne_nil
  unfold binary base2
  rw [hdigits, dropWhile_bitDigits, bitsNumber_flatMap_octetBits]
  by_cases hzero : BigEndian.value bits.octets = 0
  · rw [hzero]
    rfl
  · rw [if_neg hzero]
    exact congrArg String.ofList (if_neg (Bool.eq_false_iff.mp hnonempty))

/-! ### Contents -/

/-- How many bits of the last byte do not belong to bits of a length. -/
def unusedBits (length : Nat) : Nat := (8 - length % 8) % 8

/-- The content of a bit string: the number of unused bits, and bytes that have the bits from the top on and are filled
up with zeros. -/
def bitContents (bits : List Bool) : Language UInt8 :=
  {content | ∃ octets, content = UInt8.ofNat (unusedBits bits.length) :: octets ∧
    octets.flatMap octetBits = bits ++ List.replicate (unusedBits bits.length) false}

variable {octets content : List UInt8}

theorem value_of_octetBits (h : octets.flatMap octetBits = bits ++ List.replicate (unusedBits bits.length) false) :
    BigEndian.value octets = bitsNumber bits * 2 ^ unusedBits bits.length := by
  rw [← bitsNumber_flatMap_octetBits, h, bitsNumber_append, bitsNumber_zeros, List.length_replicate, Nat.add_zero]

/-- The zeros behind the bits are at the end of the last byte. -/
private theorem last_mod_of_value {n unused : Nat} (hunused : unused < 8)
    (hvalue : BigEndian.value octets = n * 2 ^ unused) :
    (octets.getLastD 0).toNat % 2 ^ unused = 0 := by
  cases octets using List.reverseRecOn with
  | nil => exact Nat.zero_mod _
  | append_singleton octets last =>
    rw [BigEndian.value_append_singleton] at hvalue
    have hoctet : 2 ^ unused ∣ 256 := Nat.pow_dvd_pow 2 (Nat.le_of_lt hunused)
    have hsum : 2 ^ unused ∣ 256 * BigEndian.value octets + last.toNat := hvalue ▸ Nat.dvd_mul_left _ n
    rw [List.getLastD_concat]
    exact Nat.mod_eq_zero_of_dvd ((Nat.dvd_add_right (hoctet.mul_right _)).mp hsum)

/-- Bytes that are filled up with zeros are read as they are. -/
theorem decodeBits_octets (h : octets.flatMap octetBits = bits ++ List.replicate (unusedBits bits.length) false) :
    decodeBits (UInt8.ofNat (unusedBits bits.length) :: octets) = .ok ⟨octets, bits.length⟩ := by
  have hunused : unusedBits bits.length < 8 := Nat.mod_lt _ (by decide)
  have hlength := congrArg List.length h
  rw [length_flatMap_octetBits, List.length_append, List.length_replicate] at hlength
  have hcount : (UInt8.ofNat (unusedBits bits.length)).toNat = unusedBits bits.length :=
    BigEndian.toNat_ofNat_of_lt (by omega)
  have hshape : ¬(7 < UInt8.ofNat (unusedBits bits.length) ∨
      (UInt8.ofNat (unusedBits bits.length) ≠ 0 ∧ octets = [])) := by
    rintro (hlarge | ⟨hne, rfl⟩)
    · have hlarge := UInt8.lt_iff_toNat_lt.mp hlarge
      rw [hcount] at hlarge
      exact absurd hlarge (Nat.not_lt.mpr (Nat.le_of_lt_succ hunused))
    · have hzero : unusedBits bits.length = 0 := by
        rw [List.length_nil] at hlength
        omega
      exact hne (by rw [hzero]; rfl)
  have hzeros : (octets.getLastD 0).toNat % Nat.pow 2 (unusedBits bits.length) = 0 :=
    last_mod_of_value hunused (value_of_octetBits h)
  rw [decodeBits, if_neg hshape, hcount, if_neg (not_not.mpr hzeros)]
  congr 2
  omega

theorem decodeBits_of_mem (h : content ∈ bitContents bits) :
    ∃ octets, decodeBits content = .ok ⟨octets, bits.length⟩ ∧
      BigEndian.value octets = bitsNumber bits * 2 ^ unusedBits bits.length := by
  obtain ⟨octets, rfl, hbits⟩ := h
  exact ⟨octets, decodeBits_octets hbits, value_of_octetBits hbits⟩

end CertExtensions.Asn1
