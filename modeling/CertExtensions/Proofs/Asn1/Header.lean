import CertExtensions.Asn1.Header
import CertExtensions.Proofs.BigEndian

/-!
# Writing and reading element headers

Whatever follows it, a header is read back: `readBase128_encodeBase128` for numbers in base 128,
`readIdentifier_encodeIdentifier` for identifiers and `readLength_of_isLength` for lengths, which may have zeros in
front. Each of them asks that its number fits a 64 bit word, beyond which the readers do not go.
-/

namespace CertExtensions.Asn1

open BigEndian (value value_cons toNat_ofNat_of_lt ofNat_lt_half_iff ofNat_eq_iff)

/-! ### Base 128 -/

theorem base128Digits_succ {fuel n : Nat} (h : n ≠ 0) :
    base128Digits (fuel + 1) n = base128Digits fuel (n / 128) ++ [UInt8.ofNat (128 + n % 128)] := by
  rw [base128Digits, if_neg h]

/-- Reading a digit with the top bit set goes on with the digit behind the number. -/
private theorem readBase128_more {acc d : Nat} (hd : d < 128) (h : acc * 128 < wordLimit) (rest : List UInt8) :
    readBase128 acc (UInt8.ofNat (128 + d) :: rest) = readBase128 (acc * 128 + d) rest := by
  have hb : (UInt8.ofNat (128 + d)).toNat = 128 + d := toNat_ofNat_of_lt (by omega)
  have hge : ¬UInt8.ofNat (128 + d) < 128 := by
    rw [ofNat_lt_half_iff (by omega)]
    omega
  rw [readBase128, if_neg (by omega), if_neg hge, hb, Nat.add_sub_cancel_left]

/-- Reading a digit without the top bit ends the number. -/
private theorem readBase128_last {acc d : Nat} (hd : d < 128) (h : acc * 128 < wordLimit) (rest : List UInt8) :
    readBase128 acc (UInt8.ofNat d :: rest) = .ok (acc * 128 + d, rest) := by
  have hb : (UInt8.ofNat d).toNat = d := toNat_ofNat_of_lt (by omega)
  have hlt : UInt8.ofNat d < 128 := (ofNat_lt_half_iff (by omega)).mpr hd
  rw [readBase128, if_neg (by omega), if_pos hlt, hb]

/-- Digits that more digits follow are read as the number that they form. -/
private theorem readBase128_base128Digits {fuel n : Nat} (hf : n ≤ fuel) (h : n < wordLimit) (rest : List UInt8) :
    readBase128 0 (base128Digits fuel n ++ rest) = readBase128 n rest := by
  induction fuel generalizing n rest with
  | zero =>
    obtain rfl : n = 0 := by omega
    rfl
  | succ fuel ih =>
    by_cases hn : n = 0
    · rw [hn, base128Digits, if_pos rfl, List.nil_append]
    · have hd : n % 128 < 128 := Nat.mod_lt _ (by omega)
      have hw : n / 128 * 128 < wordLimit := by omega
      rw [base128Digits_succ hn, List.append_assoc, List.singleton_append, ih (by omega) (by omega),
        readBase128_more hd hw]
      congr 1
      omega

theorem readBase128_encodeBase128 {n : Nat} (h : n < wordLimit) (rest : List UInt8) :
    readBase128 0 (encodeBase128 n ++ rest) = .ok (n, rest) := by
  have hd : n % 128 < 128 := Nat.mod_lt _ (by omega)
  have hw : n / 128 * 128 < wordLimit := by omega
  rw [encodeBase128, List.append_assoc, List.singleton_append,
    readBase128_base128Digits (by omega) (by omega), readBase128_last hd hw]
  congr 2
  omega

theorem le_of_mem_base128Digits {fuel n : Nat} {b : UInt8} (h : b ∈ base128Digits fuel n) : 128 ≤ b.toNat := by
  induction fuel generalizing n with
  | zero => cases h
  | succ fuel ih =>
    rw [base128Digits] at h
    split at h
    · cases h
    · rcases List.mem_append.mp h with hfront | hlast
      · exact ih hfront
      · rw [List.mem_singleton.mp hlast, toNat_ofNat_of_lt (by omega)]
        omega

/-! ### Identifiers -/

@[simp] theorem TagClass.ofBits_bits (cls : TagClass) : ofBits cls.bits = cls := by
  cases cls <;> rfl

theorem TagClass.bits_ofBits {n : Nat} (h : n < 4) : (ofBits n).bits = n := by
  obtain rfl | rfl | rfl | rfl : n = 0 ∨ n = 1 ∨ n = 2 ∨ n = 3 := by omega
  all_goals rfl

theorem TagClass.bits_lt (cls : TagClass) : cls.bits < 4 := by
  cases cls <;> decide

/-- What the first byte of an identifier tells: class, form and the low five bits. -/
theorem identifier_byte {cls form low : Nat} (hc : cls < 4) (hf : form < 2) (hl : low < 32) :
    let b := (UInt8.ofNat (64 * cls + 32 * form + low)).toNat
    b / 64 = cls ∧ b / 32 % 2 = form ∧ b % 32 = low := by
  intro b
  have hb : b = 64 * cls + 32 * form + low := toNat_ofNat_of_lt (by omega)
  rw [hb]
  omega

/-- The bit of the first byte that tells primitive from constructed elements. -/
def Identifier.form (id : Identifier) : Nat := if id.constructed then 1 else 0

theorem Identifier.form_lt (id : Identifier) : id.form < 2 := by
  unfold Identifier.form
  split <;> omega

theorem Identifier.form_eq_one (id : Identifier) : (id.form == 1) = id.constructed := by
  unfold Identifier.form
  cases id.constructed <;> rfl

theorem encodeIdentifier_eq (id : Identifier) :
    encodeIdentifier id =
      if id.tag.number < 31 then [UInt8.ofNat (64 * id.tag.cls.bits + 32 * id.form + id.tag.number)]
      else UInt8.ofNat (64 * id.tag.cls.bits + 32 * id.form + 31) :: encodeBase128 id.tag.number := by
  unfold encodeIdentifier Identifier.form
  cases id.constructed <;> rfl

theorem readIdentifier_encodeIdentifier (id : Identifier) (h : id.tag.number < wordLimit) (rest : List UInt8) :
    readIdentifier (encodeIdentifier id ++ rest) = .ok (id, rest) := by
  have hcls := id.tag.cls.bits_lt
  have hform := id.form_lt
  rw [encodeIdentifier_eq]
  split
  · next hn =>
    obtain ⟨h1, h2, h3⟩ := identifier_byte hcls hform (show id.tag.number < 32 by omega)
    rw [List.singleton_append]
    unfold readIdentifier
    simp only [h1, h2, h3, TagClass.ofBits_bits, id.form_eq_one]
    rw [if_neg (by omega)]
  · next hn =>
    obtain ⟨h1, h2, h3⟩ := identifier_byte hcls hform (show 31 < 32 by omega)
    rw [List.cons_append]
    unfold readIdentifier
    simp only [h1, h2, h3, TagClass.ofBits_bits, id.form_eq_one, ↓reduceIte, readBase128_encodeBase128 h]
    rw [if_neg hn]

theorem encodeIdentifier_ne_nil (id : Identifier) : encodeIdentifier id ≠ [] := by
  rw [encodeIdentifier_eq]
  split <;> simp

/-! ### Lengths -/

/-- Whether the bytes give the length: one byte below 128, or the number of bytes that follow and these bytes, which may
start with zeros and give a length from 128 on. -/
inductive IsLength (n : Nat) : List UInt8 → Prop where
  | short (h : n < 128) : IsLength n [UInt8.ofNat n]
  | long {digits : List UInt8} (hcount : digits.length < 127) (hvalue : value digits = n) (h : 128 ≤ n) :
    IsLength n (UInt8.ofNat (128 + digits.length) :: digits)

private theorem readLengthBytes_append {digits : List UInt8} {acc : Nat}
    (h : acc * 256 ^ digits.length + value digits < wordLimit) (rest : List UInt8) :
    readLengthBytes digits.length acc (digits ++ rest) =
      .ok (acc * 256 ^ digits.length + value digits, rest) := by
  induction digits generalizing acc with
  | nil => simp [readLengthBytes]
  | cons b digits ih =>
    have hsum : acc * 256 ^ (digits.length + 1) + (b.toNat * 256 ^ digits.length + value digits) =
        (acc * 256 + b.toNat) * 256 ^ digits.length + value digits := by
      rw [Nat.pow_succ, Nat.add_mul, Nat.mul_assoc, Nat.mul_comm 256, Nat.add_assoc]
    rw [List.length_cons, value_cons, hsum] at h ⊢
    -- the number that has been read is no larger than the one that all digits form
    have hpow : 1 ≤ 256 ^ digits.length := Nat.one_le_pow _ _ (by decide)
    have hle : acc * 256 + b.toNat ≤ (acc * 256 + b.toNat) * 256 ^ digits.length := Nat.le_mul_of_pos_right _ hpow
    rw [List.cons_append, readLengthBytes, if_neg (by omega)]
    exact ih h

/-- A length takes at most eight bytes behind the byte that counts them. -/
theorem length_shortest_le {n : Nat} (h : n < wordLimit) : (BigEndian.shortest n).length ≤ 8 :=
  BigEndian.length_digits_le (show n < 256 ^ 8 from h)

theorem readLength_of_isLength {n : Nat} {front : List UInt8} (h : IsLength n front) (hlt : n < wordLimit)
    (rest : List UInt8) : readLength (front ++ rest) = .ok (⟨n, decide (128 ≤ n)⟩, rest) := by
  cases h with
  | short h =>
    have hb : (UInt8.ofNat n).toNat = n := toNat_ofNat_of_lt (by omega)
    rw [List.singleton_append, readLength, if_pos ((ofNat_lt_half_iff (by omega)).mpr h), hb,
      decide_eq_false (by omega)]
  | @long digits hcount hvalue h =>
    have hb : (UInt8.ofNat (128 + digits.length)).toNat = 128 + digits.length := toNat_ofNat_of_lt (by omega)
    have hge : ¬UInt8.ofNat (128 + digits.length) < 128 := by
      rw [ofNat_lt_half_iff (by omega)]
      omega
    have hvalid : ¬(UInt8.ofNat (128 + digits.length) = 128 ∨ UInt8.ofNat (128 + digits.length) = 255) := by
      have hpos : digits.length ≠ 0 := by
        intro hzero
        rw [List.length_eq_zero_iff.mp hzero, BigEndian.value_nil] at hvalue
        omega
      rw [ofNat_eq_iff (by omega), ofNat_eq_iff (by omega)]
      change ¬(128 + digits.length = 128 ∨ 128 + digits.length = 255)
      omega
    have hsum : 0 * 256 ^ digits.length + value digits = n := by rw [Nat.zero_mul, Nat.zero_add, hvalue]
    have hread := readLengthBytes_append (hsum.trans_lt hlt) rest
    rw [hsum] at hread
    rw [List.cons_append, readLength, if_neg hge, if_neg hvalid, hb, Nat.add_sub_cancel_left, hread,
      decide_eq_true h]

theorem isLength_encodeLength {n : Nat} (h : n < wordLimit) : IsLength n (encodeLength n) := by
  unfold encodeLength
  split
  · next hshort => exact .short hshort
  · next hlong =>
    have hcount := length_shortest_le h
    exact .long (by omega) (BigEndian.value_shortest n) (Nat.not_lt.mp hlong)

end CertExtensions.Asn1
