import CertExtensions.Proofs.Asn1.Element
import CertExtensions.Proofs.Reader
import Mathlib.Data.List.Forall2

/-!
# Elements that the readers accept

For tag numbers below 31 the readers find an element exactly where the bytes start with one of its forms
(`TaggedType.read_eq_found_iff`), and a run of elements exactly where the bytes are such forms one after the other
(`TaggedType.many_eq_ok`, `TaggedType.many_flatten`). The form that is written is the shortest
(`IsElement.length_make_le`).
-/

namespace CertExtensions.Asn1

open BigEndian (value value_cons toNat_ofNat_of_lt ofNat_lt_half_iff ofNat_eq_iff)

/-! ### Lengths -/

private theorem readLengthBytes_eq_ok {count acc n : Nat} {bytes rest : List UInt8}
    (h : readLengthBytes count acc bytes = .ok (n, rest)) :
    ∃ digits, digits.length = count ∧ bytes = digits ++ rest ∧ n = acc * 256 ^ count + value digits := by
  induction count generalizing acc bytes with
  | zero =>
    cases h
    exact ⟨[], rfl, rfl, by simp⟩
  | succ count ih =>
    cases bytes with
    | nil => cases h
    | cons b bytes =>
      rw [readLengthBytes] at h
      split at h
      · cases h
      · obtain ⟨digits, hcount, rfl, rfl⟩ := ih h
        refine ⟨b :: digits, congrArg (· + 1) hcount, rfl, ?_⟩
        rw [value_cons, hcount, Nat.pow_succ, Nat.add_mul, Nat.mul_assoc, Nat.mul_comm 256, Nat.add_assoc]

private theorem readLength_eq_ok {bytes rest : List UInt8} {length : Length} (h : readLength bytes = .ok (length, rest))
    (hform : ¬(length.long && length.value < 128)) :
    ∃ front, IsLength length.value front ∧ bytes = front ++ rest := by
  cases bytes with
  | nil => cases h
  | cons b bytes =>
    rw [readLength] at h
    split at h
    · next hlt =>
      cases h
      refine ⟨[b], ?_, rfl⟩
      have hshort := IsLength.short (n := b.toNat) (UInt8.lt_iff_toNat_lt.mp hlt)
      rwa [UInt8.ofNat_toNat] at hshort
    · next hge =>
      split at h
      · cases h
      · next hvalid =>
        cases hread : readLengthBytes (b.toNat - 128) 0 bytes with
        | error fault =>
          simp only [hread] at h
          cases h
        | ok result =>
          simp only [hread] at h
          cases h
          obtain ⟨digits, hcount, rfl, hvalue⟩ := readLengthBytes_eq_ok hread
          rw [not_or] at hvalid
          have hlow : 128 ≤ b.toNat := Nat.not_lt.mp fun hlt => hge (UInt8.lt_iff_toNat_lt.mpr hlt)
          have hhigh : b.toNat ≠ 255 := fun heq => hvalid.2 (UInt8.toNat_inj.mp heq)
          have hb := b.toNat_lt
          have hlong : 128 ≤ result.1 := by simpa using hform
          have hfirst : UInt8.ofNat (128 + digits.length) = b := by
            rw [hcount, Nat.add_sub_cancel' hlow, UInt8.ofNat_toNat]
          refine ⟨b :: digits, ?_, rfl⟩
          rw [← hfirst]
          refine .long (by omega) ?_ hlong
          rw [hvalue, Nat.zero_mul, Nat.zero_add]

private theorem IsLength.length_encodeLength_le {m n : Nat} {front : List UInt8} (h : IsLength n front) (hle : m ≤ n) :
    (encodeLength m).length ≤ front.length := by
  unfold encodeLength
  split
  · cases h <;> simp
  · cases h with
    | short h => omega
    | @long digits hcount hvalue h =>
      have hlt := BigEndian.value_lt digits
      have hdigits : (BigEndian.shortest m).length ≤ digits.length := BigEndian.length_digits_le (by omega)
      simpa using hdigits

/-! ### Elements -/

variable {tag : Tag} {form : Bool} {content bytes rest : List UInt8}

/-- No form of an element is shorter than the one that is written for it, or for a shorter content. -/
theorem IsElement.length_make_le (h : IsElement tag form content bytes) {other : List UInt8}
    (hle : other.length ≤ content.length) : (Element.make tag form other).encoding.length ≤ bytes.length := by
  obtain ⟨length, hlength, rfl⟩ := h
  have := hlength.length_encodeLength_le hle
  rw [Element.encoding_make]
  simp only [List.length_append]
  omega

theorem IsElement.length_content_lt (h : IsElement tag form content bytes) : content.length < bytes.length := by
  obtain ⟨length, -, rfl⟩ := h
  have := List.length_pos_iff.mpr (encodeIdentifier_ne_nil ⟨tag, form⟩)
  rw [List.length_append, List.length_append]
  omega

theorem readIdentifier_eq_ok {id : Identifier} (h : readIdentifier bytes = .ok (id, rest))
    (hnumber : id.tag.number < 31) : bytes = encodeIdentifier id ++ rest := by
  cases bytes with
  | nil => cases h
  | cons b bytes =>
    rw [readIdentifier] at h
    split at h
    · cases hread : readBase128 0 bytes with
      | error fault =>
        simp only [hread] at h
        cases h
      | ok result =>
        simp only [hread] at h
        split at h
        · cases h
        · next hge =>
          cases h
          exact absurd hnumber hge
    · cases h
      have hb := b.toNat_lt
      have hbits : (TagClass.ofBits (b.toNat / 64)).bits = b.toNat / 64 := TagClass.bits_ofBits (by omega)
      have hfirst : 64 * (b.toNat / 64) + (if (b.toNat / 32 % 2 == 1) = true then 32 else 0) + b.toNat % 32 =
          b.toNat := by
        split
        · next hform =>
          rw [beq_iff_eq] at hform
          omega
        · next hform =>
          rw [beq_iff_eq] at hform
          omega
      simp only [encodeIdentifier]
      rw [if_pos hnumber, hbits, hfirst, UInt8.ofNat_toNat]
      rfl

private theorem checkLength_eq_ok {whole rest : List UInt8} {length : Length} {n : Nat}
    (h : checkLength whole rest length = .ok n) :
    n = length.value ∧ ¬(length.long && length.value < 128) ∧ (whole.length - rest.length) + n < wordLimit ∧
      n ≤ rest.length := by
  unfold checkLength at h
  split at h
  · cases h
  · next hform =>
    split at h
    · cases h
    · next hfits =>
      split at h
      · cases h
      · next hend =>
        cases h
        exact ⟨rfl, hform, Nat.not_le.mp hfits, Nat.not_lt.mp hend⟩

theorem Element.complete_eq_ok {front after : List UInt8} {id : Identifier} {element : Element}
    (h : complete (front ++ bytes) id bytes = .ok (element, after)) :
    ∃ length content, IsLength content.length length ∧ bytes = length ++ content ++ after ∧
      (front ++ (length ++ content)).length < wordLimit ∧
      element = ⟨id.tag, id.constructed, content, front ++ (length ++ content)⟩ := by
  unfold complete at h
  cases hlength : readLength bytes with
  | error fault =>
    simp only [hlength] at h
    cases h
  | ok result =>
    obtain ⟨length, behind⟩ := result
    simp only [hlength] at h
    cases hcheck : checkLength (front ++ bytes) behind length with
    | error fault =>
      simp only [hcheck] at h
      cases h
    | ok n =>
      simp only [hcheck] at h
      cases h
      obtain ⟨rfl, hform, hfits, hend⟩ := checkLength_eq_ok hcheck
      obtain ⟨digits, hdigits, rfl⟩ := readLength_eq_ok hlength hform
      have hcontent : (behind.take length.value).length = length.value := List.length_take_of_le hend
      have hwhole : front ++ (digits ++ behind) =
          front ++ (digits ++ behind.take length.value) ++ behind.drop length.value := by
        rw [List.append_assoc, List.append_assoc, List.take_append_drop]
      refine ⟨digits, behind.take length.value, ?_, ?_, ?_, ?_⟩
      · rw [hcontent]
        exact hdigits
      · rw [List.append_assoc, List.take_append_drop]
      · simp only [List.length_append] at hfits ⊢
        omega
      · rw [hwhole, List.length_append, Nat.add_sub_cancel, List.take_left]

/-! ### Places -/

namespace Schema

variable {α : Type} {s : Schema α}

private theorem read_eq_found {value : α} (hnumber : ∀ tag decode, s.decode? tag = some decode → tag.number < 31)
    (h : s.read bytes = .found value rest) :
    ∃ tag form content front decode, IsElement tag form content front ∧ front.length < wordLimit ∧
      bytes = front ++ rest ∧ s.decode? tag = some decode ∧ decode ⟨tag, form, content, front⟩ = .ok value := by
  obtain ⟨id, behind, element, decode, hid, hs, hcomplete, hdecode⟩ := complete_of_found h
  obtain rfl := readIdentifier_eq_ok hid (hnumber _ _ hs)
  obtain ⟨length, content, hlength, rfl, hlt, rfl⟩ := Element.complete_eq_ok hcomplete
  refine ⟨id.tag, id.constructed, content, _, decode, ⟨length, hlength, rfl⟩, hlt, ?_, hs, hdecode⟩
  simp only [List.append_assoc]

/-- Where all that is found at a place is of some form, a run of elements there is such forms one after the other. -/
theorem forall₂_of_collect {form : α → List UInt8 → Prop}
    (hform : ∀ ⦃bytes value rest⦄, s.read bytes = .found value rest → ∃ front, form value front ∧ bytes = front ++ rest)
    {fuel : Nat} {values : List α} (h : s.collect fuel bytes = .ok (values, rest)) :
    ∃ fronts, List.Forall₂ form values fronts ∧ bytes = fronts.flatten ++ rest := by
  induction fuel generalizing bytes values with
  | zero =>
    cases h
    exact ⟨[], .nil, rfl⟩
  | succ fuel ih =>
    rw [collect] at h
    cases hread : s.read bytes with
    | absent fault =>
      rw [hread] at h
      cases h
      exact ⟨[], .nil, rfl⟩
    | failed fault =>
      rw [hread] at h
      cases h
    | found value after =>
      simp only [hread] at h
      cases hmore : s.collect fuel after with
      | error fault =>
        simp only [hmore] at h
        cases h
      | ok result =>
        simp only [hmore] at h
        cases h
        obtain ⟨front, hfront, rfl⟩ := hform hread
        obtain ⟨fronts, hall, hafter⟩ := ih hmore
        refine ⟨front :: fronts, .cons hfront hall, ?_⟩
        rw [List.flatten_cons, List.append_assoc, ← hafter]

end Schema

/-! ### Types with one tag -/

theorem Fields.exhaust_eq_ok_iff {α : Type} {fields : Fields α} {value : α} :
    fields.exhaust content = .ok value ↔ fields content = .ok (value, []) := by
  unfold exhaust StateT.run
  cases fields content with
  | error fault => simp
  | ok result =>
    obtain ⟨found, rest⟩ := result
    cases rest <;> simp

namespace TaggedType

variable {α : Type} {t : TaggedType α} {value : α}

/-- Whether the bytes are an element of the type, of whatever form, for the value. -/
def IsEncoding (t : TaggedType α) (value : α) (bytes : List UInt8) : Prop :=
  ∃ form content, IsElement t.tag form content bytes ∧ t.decode ⟨t.tag, form, content, bytes⟩ = .ok value

theorem isEncoding_ofContent_iff {decode : List UInt8 → Except Fault α} :
    (ofContent tag decode).IsEncoding value bytes ↔
      ∃ content, IsElement tag false content bytes ∧ decode content = .ok value := by
  constructor
  · rintro ⟨form, content, helement, hdecode⟩
    cases form with
    | true => cases hdecode
    | false => exact ⟨content, helement, hdecode⟩
  · rintro ⟨content, helement, hdecode⟩
    exact ⟨false, content, helement, hdecode⟩

theorem isEncoding_ofComponents_iff {decode : List UInt8 → Except Fault α} :
    (ofComponents tag decode).IsEncoding value bytes ↔
      ∃ content, IsElement tag true content bytes ∧ decode content = .ok value := by
  constructor
  · rintro ⟨form, content, helement, hdecode⟩
    cases form with
    | true => exact ⟨content, helement, hdecode⟩
    | false => cases hdecode
  · rintro ⟨content, helement, hdecode⟩
    exact ⟨true, content, helement, hdecode⟩

theorem read_of_isEncoding (hnumber : t.tag.number < wordLimit) (h : t.IsEncoding value bytes)
    (hlt : bytes.length < wordLimit) (rest : List UInt8) : t.schema.read (bytes ++ rest) = .found value rest := by
  obtain ⟨form, content, helement, hdecode⟩ := h
  rw [Schema.read_of_isElement decode?_schema_self hnumber helement hlt, hdecode]
  rfl

theorem read_eq_found_iff (hnumber : t.tag.number < 31) :
    t.schema.read bytes = .found value rest ↔
      ∃ front, t.IsEncoding value front ∧ front.length < wordLimit ∧ bytes = front ++ rest := by
  constructor
  · intro h
    have htag : ∀ tag decode, t.schema.decode? tag = some decode → tag = t.tag ∧ decode = t.decode := by
      intro tag decode hs
      simp only [schema, Option.ite_none_right_eq_some, Option.some.injEq] at hs
      exact ⟨hs.1, hs.2.symm⟩
    obtain ⟨tag, form, content, front, decode, helement, hlt, rfl, hs, hdecode⟩ :=
      Schema.read_eq_found (fun tag decode hs => (htag tag decode hs).1 ▸ hnumber) h
    obtain ⟨rfl, rfl⟩ := htag tag decode hs
    exact ⟨front, ⟨form, content, helement, hdecode⟩, hlt, rfl⟩
  · rintro ⟨front, h, hlt, rfl⟩
    exact read_of_isEncoding (Nat.lt_trans hnumber (by decide)) h hlt rest

/-- The whole of the bytes is an element of the type exactly where it is a form of one. -/
theorem whole_eq_ok_iff (hnumber : t.tag.number < 31) :
    t.whole bytes = .ok value ↔ t.IsEncoding value bytes ∧ bytes.length < wordLimit := by
  rw [whole, Schema.whole_eq_ok_iff, read_eq_found_iff hnumber]
  constructor
  · rintro ⟨front, hencoding, hlt, hbytes⟩
    rw [List.append_nil] at hbytes
    rw [hbytes]
    exact ⟨hencoding, hlt⟩
  · rintro ⟨hencoding, hlt⟩
    exact ⟨bytes, hencoding, hlt, (List.append_nil bytes).symm⟩

theorem required_of_isEncoding (hnumber : t.tag.number < wordLimit) (h : t.IsEncoding value bytes)
    (hlt : bytes.length < wordLimit) (rest : List UInt8) : t.required (bytes ++ rest) = .ok (value, rest) := by
  unfold required Schema.required
  rw [read_of_isEncoding hnumber h hlt]

theorem required_eq_ok (hnumber : t.tag.number < 31) (h : t.required bytes = .ok (value, rest)) :
    ∃ front, t.IsEncoding value front ∧ bytes = front ++ rest := by
  obtain ⟨front, hencoding, -, hbytes⟩ := (read_eq_found_iff hnumber).mp (Schema.required_eq_ok_iff.mp h)
  exact ⟨front, hencoding, hbytes⟩

theorem optional_of_isEncoding (hnumber : t.tag.number < wordLimit) (h : t.IsEncoding value bytes)
    (hlt : bytes.length < wordLimit) (rest : List UInt8) :
    t.optional (bytes ++ rest) = .ok (some value, rest) := by
  unfold optional Schema.optional
  rw [read_of_isEncoding hnumber h hlt]

theorem optional_of_isElement (hne : tag ≠ t.tag) (hnumber : tag.number < wordLimit)
    (h : IsElement tag form content bytes) (rest : List UInt8) :
    t.optional (bytes ++ rest) = .ok (none, bytes ++ rest) := by
  obtain ⟨length, -, rfl⟩ := h
  rw [List.append_assoc]
  exact optional_absent hne hnumber form _

/-- An optional component that is not found has taken nothing. -/
theorem optional_eq_ok (hnumber : t.tag.number < 31) {value? : Option α} (h : t.optional bytes = .ok (value?, rest)) :
    (value? = none ∧ bytes = rest) ∨
      ∃ value front, value? = some value ∧ t.IsEncoding value front ∧ bytes = front ++ rest := by
  obtain ⟨rfl, rfl⟩ | ⟨value, rfl, hread⟩ := Schema.optional_cases h
  · exact .inl ⟨rfl, rfl⟩
  · obtain ⟨front, hencoding, -, hbytes⟩ := (read_eq_found_iff hnumber).mp hread
    exact .inr ⟨value, front, rfl, hencoding, hbytes⟩

/-- An optional component takes bytes from the front, if any. -/
theorem front_of_optional (hnumber : t.tag.number < 31) {value? : Option α} (h : t.optional bytes = .ok (value?, rest)) :
    ∃ front, bytes = front ++ rest := by
  rcases optional_eq_ok hnumber h with ⟨-, rfl⟩ | ⟨value, front, -, -, rfl⟩
  · exact ⟨[], rfl⟩
  · exact ⟨front, rfl⟩

private theorem collect_eq_ok (hnumber : t.tag.number < 31) {fuel : Nat} {values : List α}
    (h : t.schema.collect fuel bytes = .ok (values, rest)) :
    ∃ fronts, List.Forall₂ t.IsEncoding values fronts ∧ bytes = fronts.flatten ++ rest := by
  refine Schema.forall₂_of_collect (fun bytes value rest hread => ?_) h
  obtain ⟨front, hencoding, -, hbytes⟩ := (read_eq_found_iff hnumber).mp hread
  exact ⟨front, hencoding, hbytes⟩

/-- What has been read as a run of elements is a form of each, one after the other. -/
theorem many_eq_ok (hnumber : t.tag.number < 31) {values : List α} (h : t.schema.many bytes = .ok (values, [])) :
    ∃ fronts, List.Forall₂ t.IsEncoding values fronts ∧ bytes = fronts.flatten := by
  obtain ⟨fronts, hall, hbytes⟩ := collect_eq_ok hnumber h
  rw [List.append_nil] at hbytes
  exact ⟨fronts, hall, hbytes⟩

theorem many_flatten (hnumber : t.tag.number < wordLimit) {values : List α} {fronts : List (List UInt8)}
    (h : List.Forall₂ t.IsEncoding values fronts) (hlt : fronts.flatten.length < wordLimit) :
    t.schema.many fronts.flatten = .ok (values, []) := by
  obtain ⟨hlength, hzip⟩ := List.forall₂_iff_zip.mp h
  have hread : ∀ item ∈ values.zip fronts, ∀ rest,
      t.schema.read (item.2 ++ rest) = .ofResult (Except.ok item.1 : Except Fault α) rest := by
    intro item hitem rest
    have hle := (List.sublist_flatten_of_mem (List.of_mem_zip hitem).2).length_le
    exact read_of_isEncoding hnumber (hzip hitem) (Nat.lt_of_le_of_lt hle hlt) rest
  have hmany := Schema.many_flatMap hread
  have hpure : ((values.zip fronts).mapM fun item => (Except.ok item.1 : Except Fault α)) =
      .ok ((values.zip fronts).map Prod.fst) := List.mapM_pure
  have hsnd : (values.zip fronts).map Prod.snd = fronts := List.map_snd_zip (Nat.le_of_eq hlength.symm)
  have hfst : (values.zip fronts).map Prod.fst = values := List.map_fst_zip (Nat.le_of_eq hlength)
  rw [List.flatMap_def, hpure, hfst] at hmany
  rw [← hsnd]
  exact hmany

end TaggedType

end CertExtensions.Asn1
