import CertExtensions.Certificate.Basic
import CertExtensions.Proofs.ObjectId.Content

/-!
# Object identifiers split at the first byte

The reader of certificates takes the first two arcs of an identifier from the first byte of its content, and what
comes behind this byte for the other arcs. The first number takes one byte if it is below 128, and from 120 on its
quotient by 40 is no first arc any more; and a zero byte alone is taken for one arc. So the reader gives the identifier
whose content it is exactly where the second arc is below 40 and the identifier is not 0.0, and none that could be
registered otherwise (`objectId?_of_content`).
-/

namespace CertExtensions.ObjectId

open Asn1 CertifiedExtension
open BigEndian (toNat_ofNat_of_lt ofNat_lt_half_iff)

/-- Whether the first byte of the content tells the first two arcs. -/
def firstByteTells (id : ObjectId) : Bool :=
  id.arcs[1]?.any (· < 40) && id.arcs != [0, 0]

/-! ### The arcs behind the first byte -/

private theorem laterArcs?_more {acc count d : Nat} (hd : d < 128) (rest : List UInt8) :
    laterArcs? acc count (UInt8.ofNat (128 + d) :: rest) = laterArcs? (acc * 128 + d) (count + 1) rest := by
  have hb : (UInt8.ofNat (128 + d)).toNat = 128 + d := toNat_ofNat_of_lt (by omega)
  have hge : ¬UInt8.ofNat (128 + d) < 128 := by
    rw [ofNat_lt_half_iff (by omega)]
    omega
  have hdigit : (128 + d) % 128 = d := by omega
  rw [laterArcs?, if_neg hge, hb, hdigit]

private theorem laterArcs?_last {acc count d : Nat} (hd : d < 128) (rest : List UInt8) :
    laterArcs? acc count (UInt8.ofNat d :: rest) =
      if 9 ≤ count then none else (laterArcs? 0 0 rest).map ((acc * 128 + d) :: ·) := by
  have hb : (UInt8.ofNat d).toNat = d := toNat_ofNat_of_lt (by omega)
  have hlt : UInt8.ofNat d < 128 := (ofNat_lt_half_iff (by omega)).mpr hd
  rw [laterArcs?, if_pos hlt, hb, Nat.mod_eq_of_lt hd]

/-- Digits that more digits follow are read as the number that they form. -/
private theorem laterArcs?_base128Digits {fuel n : Nat} (hf : n ≤ fuel) (rest : List UInt8) :
    laterArcs? 0 0 (base128Digits fuel n ++ rest) = laterArcs? n (base128Digits fuel n).length rest := by
  induction fuel generalizing n rest with
  | zero =>
    obtain rfl : n = 0 := by omega
    rfl
  | succ fuel ih =>
    by_cases hn : n = 0
    · rw [hn, base128Digits, if_pos rfl]
      rfl
    · have hd : n % 128 < 128 := Nat.mod_lt _ (by omega)
      have hsum : n / 128 * 128 + n % 128 = n := by omega
      rw [base128Digits_succ hn, List.append_assoc, List.singleton_append, ih (by omega), laterArcs?_more hd, hsum,
        List.length_append]
      rfl

private theorem laterArcs?_encodeBase128 (n : Nat) (rest : List UInt8) :
    laterArcs? 0 0 (encodeBase128 n ++ rest) =
      if 9 ≤ (base128Digits n (n / 128)).length then none else (laterArcs? 0 0 rest).map (n :: ·) := by
  have hd : n % 128 < 128 := Nat.mod_lt _ (by omega)
  have hsum : n / 128 * 128 + n % 128 = n := by omega
  rw [encodeBase128, List.append_assoc, List.singleton_append, laterArcs?_base128Digits (by omega), laterArcs?_last hd,
    hsum]

/-- The arcs that are read are those that have been written. -/
private theorem eq_of_laterArcs? {numbers arcs : List Nat}
    (h : laterArcs? 0 0 (numbers.flatMap encodeBase128) = some arcs) : arcs = numbers := by
  induction numbers generalizing arcs with
  | nil =>
    cases h
    rfl
  | cons n numbers ih =>
    rw [List.flatMap_cons, laterArcs?_encodeBase128] at h
    split at h
    · cases h
    · obtain ⟨others, hothers, rfl⟩ := Option.map_eq_some_iff.mp h
      rw [ih hothers]

/-! ### The first byte -/

private theorem encodeBase128_of_lt {n : Nat} (h : n < 128) : encodeBase128 n = [UInt8.ofNat n] := by
  have hdiv : n / 128 = 0 := by omega
  have hdigits : base128Digits n 0 = [] := by cases n <;> rfl
  rw [encodeBase128, hdiv, hdigits, Nat.mod_eq_of_lt h, List.nil_append]

/-- The first byte of a number is the number, or has its top bit set. -/
private theorem exists_encodeBase128_cons (n : Nat) : ∃ b rest, encodeBase128 n = b :: rest ∧ min n 128 ≤ b.toNat := by
  by_cases hn : n < 128
  · refine ⟨UInt8.ofNat n, [], encodeBase128_of_lt hn, ?_⟩
    rw [toNat_ofNat_of_lt (by omega)]
    exact Nat.min_le_left n 128
  · have hne : base128Digits n (n / 128) ≠ [] := by
      obtain ⟨fuel, hfuel⟩ : ∃ fuel, n = fuel + 1 := ⟨n - 1, by omega⟩
      rw [hfuel, base128Digits_succ (by omega)]
      simp
    obtain ⟨b, rest, hdigits⟩ := List.exists_cons_of_ne_nil hne
    have hb : 128 ≤ b.toNat := le_of_mem_base128Digits (hdigits ▸ List.mem_cons_self)
    refine ⟨b, rest ++ [UInt8.ofNat (n % 128)], by rw [encodeBase128, hdigits, List.cons_append], ?_⟩
    exact Nat.le_trans (Nat.min_le_right n 128) hb

variable {n : Nat} {rest : List Nat} {critical : Bool} {octets : List UInt8} {found : ObjectId}

/-- A first number from 120 on gives a first arc from 3 on. -/
private theorem objectId?_of_large (hn : 120 ≤ n)
    (h : objectId? ⟨(n :: rest).flatMap encodeBase128, critical, octets⟩ = some found) : ¬isRegistrable found.arcs := by
  obtain ⟨b, tail, hencode, hb⟩ := exists_encodeBase128_cons n
  have hlarge : 120 ≤ b.toNat := by omega
  have hne : b ≠ 0 := by
    rintro rfl
    exact absurd hlarge (by decide)
  rw [List.flatMap_cons, hencode, List.cons_append] at h
  simp only [objectId?, hne, false_and, if_false] at h
  obtain ⟨arcs, -, rfl⟩ := Option.map_eq_some_iff.mp h
  simp only [isRegistrable, Bool.and_eq_true, decide_eq_true_eq]
  omega

/-- A first number below 120 is a byte that gives its two arcs, unless it is zero and the only one. -/
private theorem objectId?_of_small (hn : n < 120) (hne : n :: rest ≠ [0])
    (h : objectId? ⟨(n :: rest).flatMap encodeBase128, critical, octets⟩ = some found) :
    found = ⟨n / 40 :: n % 40 :: rest⟩ := by
  have hb : (UInt8.ofNat n).toNat = n := toNat_ofNat_of_lt (by omega)
  have hmore : ¬(UInt8.ofNat n = 0 ∧ rest.flatMap encodeBase128 = []) := by
    rintro ⟨hzero, hrest⟩
    rw [hzero] at hb
    obtain rfl : rest = [] := by
      by_contra hnil
      exact flatMap_ne_nil hnil hrest
    exact hne (congrArg (fun m => [m]) hb.symm)
  rw [List.flatMap_cons, encodeBase128_of_lt (by omega), List.singleton_append] at h
  simp only [objectId?, if_neg hmore, hb] at h
  obtain ⟨arcs, harcs, rfl⟩ := Option.map_eq_some_iff.mp h
  rw [eq_of_laterArcs? harcs]

/-- What is read from the content of an identifier is this identifier, or none that could be registered. -/
theorem objectId?_of_content {id : ObjectId} (hid : isRegistrable id.arcs)
    (h : objectId? ⟨id.content, critical, octets⟩ = some found) :
    if id.firstByteTells then found = id else ¬isRegistrable found.arcs := by
  obtain ⟨arcs⟩ := id
  match arcs with
  | [] | [_] => cases hid
  | first :: second :: rest =>
    have hcontent : content ⟨first :: second :: rest⟩ = ((40 * first + second) :: rest).flatMap encodeBase128 := rfl
    rw [hcontent] at h
    simp only [isRegistrable, Bool.and_eq_true, decide_eq_true_eq, Bool.or_eq_true, beq_iff_eq] at hid
    by_cases hsecond : second < 40
    · by_cases hzero : (40 * first + second) :: rest = [0]
      · -- the content of 0.0 is a zero byte alone
        obtain ⟨hsum, rfl⟩ := List.cons.inj hzero
        obtain ⟨rfl, rfl⟩ : first = 0 ∧ second = 0 := by omega
        have hfound : some ⟨[0]⟩ = some found := h
        cases hfound
        exact Bool.false_ne_true
      · have hdiv : (40 * first + second) / 40 = first := by omega
        have hmod : (40 * first + second) % 40 = second := by omega
        have hnotZero : first :: second :: rest ≠ [0, 0] := by
          intro hzeros
          obtain ⟨rfl, rfl, rfl⟩ : first = 0 ∧ second = 0 ∧ rest = [] := by simpa using hzeros
          exact hzero rfl
        have htells : firstByteTells ⟨first :: second :: rest⟩ = true :=
          Bool.and_eq_true_iff.mpr ⟨decide_eq_true hsecond, bne_iff_ne.mpr hnotZero⟩
        rw [htells]
        have hfound := objectId?_of_small (by omega) hzero h
        rwa [hdiv, hmod] at hfound
    · have htells : firstByteTells ⟨first :: second :: rest⟩ = false := by simp [firstByteTells, hsecond]
      rw [htells]
      exact objectId?_of_large (by omega) h

example : objectId? ⟨content ⟨[2, 999]⟩, false, []⟩ = some ⟨[3, 16, 55]⟩ := by decide

example : objectId? ⟨content ⟨[0, 0]⟩, false, []⟩ = some ⟨[0]⟩ := by decide

end CertExtensions.ObjectId
