import CertExtensions.Proofs.Asn1.Shape
import CertExtensions.Proofs.ObjectId.Content

/-!
# Contents of integers and object identifiers

The content of an integer is its two's complement in the fewest bytes (`integerContents`), and only such a content is
taken (`mem_integerContents_iff`); without the sign it tells the integer up to the one that has the same bytes behind a
zero (`value_eq_value_iff_of_mem`). Signed integers of 64 bits and unsigned ones are read wherever their content stands
(`finds_int64`, `finds_uint64`), and so are the object identifiers that can be read at all (`finds_objectId`). Nothing
else is read as one of them: no content that is empty, has a byte too many or is too large (`findsOnly_int64`,
`findsOnly_uint64`, `findsOnly_objectId`).
-/

namespace CertExtensions

open Asn1 BigEndian

/-! ### Two's complement -/

namespace BigEndian

/-- A byte that repeats the sign does not count. -/
private theorem signedValue_padded {a b : UInt8} {rest : List UInt8} (h : paddedInteger (a :: b :: rest)) :
    signedValue (a :: b :: rest) = signedValue (b :: rest) := by
  unfold paddedInteger at h
  rcases Bool.or_eq_true_iff.mp h with h | h
  · obtain ⟨ha, hb⟩ := Bool.and_eq_true_iff.mp h
    obtain rfl := beq_iff_eq.mp ha
    rw [signedValue_of_lt (by decide), signedValue_of_lt (of_decide_eq_true hb), value_zero_cons]
  · obtain ⟨ha, hb⟩ := Bool.and_eq_true_iff.mp h
    obtain rfl := beq_iff_eq.mp ha
    have hb := UInt8.not_lt.mpr (of_decide_eq_true hb)
    have hvalue := value_cons 255 (b :: rest)
    have hpow : Nat.pow 256 ((b :: rest).length + 1) = 256 ^ (b :: rest).length * 256 := pow_succ 256 _
    have hpow' : Nat.pow 256 (rest.length + 1) = 256 ^ (b :: rest).length := rfl
    have hmax : (255 : UInt8).toNat = 255 := rfl
    rw [hmax] at hvalue
    rw [signedValue, signedValue, if_neg (by decide), if_neg hb, hvalue, hpow, hpow']
    omega

/-- A content has others of the same number with any number of bytes more, all of which repeat the sign. -/
private theorem exists_wider {bytes : List UInt8} (hne : bytes ≠ []) (more : Nat) :
    ∃ wider, wider.length = bytes.length + more + 1 ∧ signedValue wider = signedValue bytes ∧ paddedInteger wider := by
  have hstep : ∀ other : List UInt8, other ≠ [] →
      ∃ a, paddedInteger (a :: other) ∧ signedValue (a :: other) = signedValue other := by
    intro other hother
    match other with
    | [] => exact absurd rfl hother
    | b :: rest =>
      have hpadded : ∃ a, paddedInteger (a :: b :: rest) := by
        by_cases hb : b < 128
        · exact ⟨0, by simp [paddedInteger, hb]⟩
        · exact ⟨255, by simp [paddedInteger, UInt8.not_lt.mp hb]⟩
      obtain ⟨a, ha⟩ := hpadded
      exact ⟨a, ha, signedValue_padded ha⟩
  induction more with
  | zero =>
    obtain ⟨a, hpadded, hvalue⟩ := hstep bytes hne
    exact ⟨a :: bytes, rfl, hvalue, hpadded⟩
  | succ more ih =>
    obtain ⟨wider, hlength, hsame, -⟩ := ih
    obtain ⟨a, hpadded, hvalue⟩ := hstep wider (List.ne_nil_of_length_pos (by omega))
    exact ⟨a :: wider, by rw [List.length_cons, hlength]; rfl, hvalue.trans hsame, hpadded⟩

private theorem signedValue_inj_of_length_eq {bytes others : List UInt8} (hlength : bytes.length = others.length)
    (h : signedValue bytes = signedValue others) : bytes = others := by
  rw [← value_inj_of_length_eq hlength]
  have hlt := value_lt bytes
  have hlt' := value_lt others
  rw [signedValue_eq, signedValue_eq, hlength] at h
  rw [hlength] at hlt
  split at h <;> split at h <;> omega

/-- Bytes with the top bit set are no longer than others that form their number. -/
private theorem length_le_of_value_eq {bytes others : List UInt8} (htop : 256 ^ bytes.length ≤ 2 * value bytes)
    (h : value bytes = value others) : bytes.length ≤ others.length := by
  by_contra hlonger
  have hpow : 256 ^ (others.length + 1) ≤ 256 ^ bytes.length := Nat.pow_le_pow_right (by omega) (by omega)
  have hlt := value_lt others
  rw [Nat.pow_succ] at hpow
  omega

/-- Eight bytes are enough for a signed number of 64 bits. -/
private theorem exists_signedValue_eq {n : Int} (hlow : -2 ^ 63 ≤ n) (hhigh : n < 2 ^ 63) :
    ∃ content, content.length = 8 ∧ signedValue content = n := by
  refine ⟨fixed 8 (n % 2 ^ 64).toNat, length_fixed _ _, ?_⟩
  have hvalue : value (fixed 8 (n % 2 ^ 64).toNat) = (n % 2 ^ 64).toNat := value_fixed_of_lt (by omega)
  rw [signedValue_eq, hvalue, length_fixed]
  split <;> omega

end BigEndian

/-! ### Integers -/

namespace Asn1

/-- The two's complement of the integer in the fewest bytes, but at least one. -/
def integerContents (n : Int) : Language UInt8 :=
  {content | content ≠ [] ∧ signedValue content = n ∧
    ∀ other, other ≠ [] → signedValue other = n → content.length ≤ other.length}

/-- The contents of the integers of 64 bits with a sign. -/
def int64Contents (n : Int) : Language UInt8 :=
  {content | -2 ^ 63 ≤ n ∧ n < 2 ^ 63 ∧ content ∈ integerContents n}

/-- The contents of the integers of 64 bits without a sign. -/
def uint64Contents (n : Nat) : Language UInt8 :=
  {content | n < 2 ^ 64 ∧ content ∈ integerContents n}

variable {content : List UInt8}

/-- No content is shorter than one byte. -/
theorem singleton_mem_integerContents (b : UInt8) : [b] ∈ integerContents (signedValue [b]) :=
  ⟨List.cons_ne_nil b [], rfl, fun _ hne _ => List.length_pos_iff.mpr hne⟩

theorem not_paddedInteger_of_mem {n : Int} (h : content ∈ integerContents n) : ¬paddedInteger content := by
  obtain ⟨-, hvalue, hfewest⟩ := h
  intro hpadded
  match content with
  | [] | [_] => cases hpadded
  | a :: b :: rest =>
    rw [signedValue_padded hpadded] at hvalue
    have hle := hfewest (b :: rest) (List.cons_ne_nil b rest) hvalue
    simp only [List.length_cons] at hle
    omega

private theorem checkInteger_eq_ok_iff : checkInteger content = .ok () ↔ content ≠ [] ∧ ¬paddedInteger content := by
  cases content <;> simp [checkInteger]

/-- A content is taken just if it has the fewest bytes for its number. -/
theorem mem_integerContents_iff {n : Int} :
    content ∈ integerContents n ↔ checkInteger content = .ok () ∧ signedValue content = n := by
  rw [checkInteger_eq_ok_iff]
  constructor
  · intro h
    exact ⟨⟨h.1, not_paddedInteger_of_mem h⟩, h.2.1⟩
  · rintro ⟨⟨hne, hpadded⟩, hvalue⟩
    refine ⟨hne, hvalue, fun other hother hsame => Nat.not_lt.mp fun hlt => hpadded ?_⟩
    obtain ⟨wider, hlength, hwider, hwiderPadded⟩ := exists_wider hother (content.length - other.length - 1)
    obtain rfl : wider = content := signedValue_inj_of_length_eq (by omega) (by rw [hwider, hsame, hvalue])
    exact hwiderPadded

theorem isEncoding_integerOctets_iff {tag : Tag} {bytes : List UInt8} :
    (integerOctets.implicit tag).IsEncoding content bytes ↔
      checkInteger content = .ok () ∧ IsElement tag false content bytes := by
  have htype : integerOctets.implicit tag =
      .ofContent tag fun content => checkInteger content >>= fun _ => .ok content := rfl
  rw [htype, TaggedType.isEncoding_ofContent_iff]
  constructor
  · rintro ⟨found, helement, hdecode⟩
    obtain ⟨⟨⟩, hcheck, hfound⟩ := Reader.bind_eq_ok hdecode
    cases hfound
    exact ⟨hcheck, helement⟩
  · rintro ⟨hcheck, helement⟩
    refine ⟨content, helement, ?_⟩
    rw [hcheck]
    rfl

theorem integerContents_unique {n : Int} {other : List UInt8} (h : content ∈ integerContents n)
    (hother : other ∈ integerContents n) : content = other := by
  obtain ⟨hne, hvalue, hfewest⟩ := h
  obtain ⟨hne', hvalue', hfewest'⟩ := hother
  have hle := hfewest other hne' hvalue'
  have hge := hfewest' content hne hvalue
  exact signedValue_inj_of_length_eq (by omega) (by rw [hvalue, hvalue'])

/-- The integers are the same, or one is negative and the other what its two's complement is without the sign. -/
def AlikeUnsigned (m n : Int) (content other : List UInt8) : Prop :=
  m = n ∨ (m < 0 ∧ n = m + 256 ^ content.length) ∨ (n < 0 ∧ m = n + 256 ^ other.length)

/-- Without the sign, the contents of two integers form one number just if the integers are alike. -/
theorem value_eq_value_iff_of_mem {m n : Int} {other : List UInt8} (h : content ∈ integerContents m)
    (hother : other ∈ integerContents n) : value content = value other ↔ AlikeUnsigned m n content other := by
  have hm := h.2.1
  have hn := hother.2.1
  have hlt := value_lt content
  have hlt' := value_lt other
  have hcast : ∀ n : Nat, (256 ^ n : Int) = (256 ^ n : Nat) := fun n => by push_cast; rfl
  rw [signedValue_eq] at hm hn
  rw [AlikeUnsigned, hcast, hcast]
  constructor
  · intro hsame
    split at hm
    · split at hn
      · exact .inl (by omega)
      · exact .inr (.inr ⟨by omega, by omega⟩)
    · split at hn
      · exact .inr (.inl ⟨by omega, by omega⟩)
      · -- both top bits are set, so the contents are of one length
        have hle := length_le_of_value_eq (by omega) hsame
        have hge := length_le_of_value_eq (by omega) hsame.symm
        rw [Nat.le_antisymm hle hge] at hm
        exact .inl (by omega)
  · rintro (rfl | ⟨hneg, rfl⟩ | ⟨hneg, rfl⟩)
    · rw [integerContents_unique h hother]
    · split at hm
      · omega
      · split at hn <;> omega
    · split at hn
      · omega
      · split at hm <;> omega

theorem finds_int64 : int64.schema.Finds fun n => leaf .integer (int64Contents n) := by
  refine TaggedType.finds_ofContent (show Tag.integer.number < wordLimit by decide) fun n content hcontent _ => ?_
  obtain ⟨hlow, hhigh, hcontent⟩ := hcontent
  have hpadded := not_paddedInteger_of_mem hcontent
  obtain ⟨hne, hvalue, hfewest⟩ := hcontent
  obtain ⟨eight, hlength, height⟩ := exists_signedValue_eq hlow hhigh
  have hle := hfewest eight (List.ne_nil_of_length_pos (by omega)) height
  have hcheck : checkInteger content = .ok () := by simp [checkInteger, hne, hpadded]
  unfold decodeInt64
  rw [hcheck]
  change (if 8 < content.length then _ else _) = _
  rw [if_neg (by omega), hvalue]

theorem finds_uint64 : uint64.schema.Finds fun n => leaf .integer (uint64Contents n) := by
  refine TaggedType.finds_ofContent (show Tag.integer.number < wordLimit by decide) fun n content hcontent _ => ?_
  obtain ⟨hlt, hcontent⟩ := hcontent
  have hpadded := not_paddedInteger_of_mem hcontent
  obtain ⟨hne, hvalue, -⟩ := hcontent
  cases content with
  | nil => exact absurd rfl hne
  | cons b rest =>
    have hb : b < 128 := (signedValue_nonneg_iff b rest).mp (by omega)
    rw [signedValue_of_lt hb] at hvalue
    have hn : value (b :: rest) = n := Int.ofNat.inj hvalue
    have hlimit : ¬wordLimit ≤ n := Nat.not_le.mpr hlt
    simp only [decodeUInt64, UInt8.not_le.mpr hb, ↓reduceIte, hpadded, hn, hlimit, Bool.false_eq_true]

/-! ### Object identifiers -/

/-- The content of the object identifier, if it can be read. -/
def objectIdContents (id : ObjectId) : Language UInt8 :=
  {content | id.Readable ∧ content = id.content}

theorem make_mem_objectId {id : ObjectId} (h : ObjectId.decode content = .ok id) (hlt : content.length < wordLimit) :
    (Element.make .objectIdentifier false content).encoding ∈ leaf .objectIdentifier (objectIdContents id) :=
  make_mem_leaf (ObjectId.decode_eq_ok_iff.mp h) hlt .objectIdentifier

theorem finds_objectId : objectId.schema.Finds fun id => leaf .objectIdentifier (objectIdContents id) :=
  TaggedType.finds_ofContent (show Tag.objectIdentifier.number < wordLimit by decide)
    fun _ _ hcontent _ => ObjectId.decode_eq_ok_iff.mpr hcontent

/-! ### What is taken for an integer or an object identifier -/

/-- Integers of at most eight bytes. -/
def int64Shape : Language UInt8 := leaf .integer {content | checkInteger content = .ok () ∧ content.length ≤ 8}

/-- Integers that are not negative and fit a word. -/
def uint64Shape : Language UInt8 :=
  leaf .integer {content | checkInteger content = .ok () ∧ 0 ≤ signedValue content ∧ signedValue content < 2 ^ 64}

theorem findsOnly_int64 : int64.schema.FindsOnly int64Shape := by
  refine TaggedType.findsOnly_ofContent (show Tag.integer.number < 31 by decide) fun n content hdecode => ?_
  obtain ⟨⟨⟩, hcheck, hdecode⟩ := Reader.bind_eq_ok hdecode
  split at hdecode
  · cases hdecode
  · next hlength => exact ⟨hcheck, Nat.not_lt.mp hlength⟩

theorem findsOnly_uint64 : uint64.schema.FindsOnly uint64Shape := by
  refine TaggedType.findsOnly_ofContent (show Tag.integer.number < 31 by decide) fun n content hdecode => ?_
  cases content with
  | nil => cases hdecode
  | cons b rest =>
    rw [decodeUInt64] at hdecode
    split at hdecode
    · cases hdecode
    · next hsign =>
      split at hdecode
      · cases hdecode
      · next hpadded =>
        split at hdecode
        · cases hdecode
        · next hlimit =>
          have hb : b < 128 := UInt8.not_le.mp hsign
          have hlt : value (b :: rest) < 2 ^ 64 := Nat.not_le.mp hlimit
          refine ⟨by simp [checkInteger, hpadded], (signedValue_nonneg_iff b rest).mpr hb, ?_⟩
          rw [signedValue_of_lt hb]
          omega

/-- Object identifiers that can be read. -/
def objectIdShape : Language UInt8 := leaf .objectIdentifier (⨆ id, objectIdContents id)

theorem objectId_of_decode {id : ObjectId} (h : ObjectId.decode content = .ok id) :
    content ∈ ⨆ id, objectIdContents id :=
  Language.mem_iSup.mpr ⟨id, ObjectId.decode_eq_ok_iff.mp h⟩

theorem findsOnly_objectId : objectId.schema.FindsOnly objectIdShape :=
  TaggedType.findsOnly_ofContent (show Tag.objectIdentifier.number < 31 by decide)
    fun _ _ hdecode => objectId_of_decode hdecode

end Asn1

end CertExtensions
