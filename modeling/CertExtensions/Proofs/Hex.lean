import CertExtensions.Hex
import CertExtensions.Proofs.BigEndian
import Mathlib.Data.List.DropRight

/-!
# Hexadecimal digits

Two digits tell a byte, so the digits of bytes tell the bytes (`digits_injective`). All characters of a number are
letters and digits, but for the blanks between groups (`mem_numeral`). A number tells what bytes are worth and nothing
else: bytes are shown alike just if they form the same unsigned number (`numeral_eq_numeral_iff`).
-/

namespace CertExtensions.Hex

private theorem digit_inj {m n : Nat} (hm : m < 16) (hn : n < 16) (h : digit m = digit n) : m = n := by
  have hall : ∀ i j : Fin 16, digit i = digit j → i = j := by decide
  exact congrArg Fin.val (hall ⟨m, hm⟩ ⟨n, hn⟩ h)

private theorem isAlphanum_digit {n : Nat} (h : n < 16) : (digit n).isAlphanum := by
  have hall : ∀ i : Fin 16, (digit i).isAlphanum := by decide
  exact hall ⟨n, h⟩

theorem toNat_halves_lt (b : UInt8) : b.toNat / 16 < 16 ∧ b.toNat % 16 < 16 := by
  have hb := b.toNat_lt
  omega

private theorem pair_injective : Function.Injective pair := by
  intro a b h
  obtain ⟨hhigh, h⟩ := List.cons.inj h
  have hlow := (List.cons.inj h).1
  have hhigh' := digit_inj (toNat_halves_lt a).1 (toNat_halves_lt b).1 hhigh
  have hlow' := digit_inj (toNat_halves_lt a).2 (toNat_halves_lt b).2 hlow
  apply UInt8.toNat_inj.mp
  omega

theorem digits_injective : Function.Injective digits := by
  intro bytes others h
  induction bytes generalizing others with
  | nil =>
    cases others with
    | nil => rfl
    | cons b others => cases h
  | cons a bytes ih =>
    cases others with
    | nil => cases h
    | cons b others =>
      have happend : pair a ++ digits bytes = pair b ++ digits others := h
      obtain ⟨hpair, hrest⟩ := List.append_inj happend rfl
      rw [pair_injective hpair, ih hrest]

theorem isAlphanum_of_mem_digits {bytes : List UInt8} {c : Char} (h : c ∈ digits bytes) : c.isAlphanum := by
  obtain ⟨b, -, hc⟩ := List.mem_flatMap.mp h
  obtain ⟨hhigh, hlow⟩ := toNat_halves_lt b
  rcases List.mem_cons.mp hc with rfl | hc
  · exact isAlphanum_digit hhigh
  · rw [List.mem_singleton.mp hc]
    exact isAlphanum_digit hlow

/-! ### Numerals -/

private theorem isAlphanum_of_mem_padded {ds : List Char} (h : ∀ c ∈ ds, c.isAlphanum) {c : Char} (hc : c ∈ padded ds) :
    c.isAlphanum := by
  unfold padded at hc
  rcases List.mem_append.mp hc with hzero | hc
  · rw [List.eq_of_mem_replicate hzero]
    rfl
  · split at hc
    · rw [List.mem_singleton.mp hc]
      rfl
    · exact h c hc

private theorem mem_spaced {ds : List Char} {c : Char} (h : c ∈ spaced ds) : c ∈ ds ∨ c = ' ' := by
  fun_induction spaced ds with
  | case1 a b d e f rest ih =>
    simp only [List.mem_cons] at h ih ⊢
    rcases h with rfl | rfl | rfl | rfl | rfl | h
    · simp
    · simp
    · simp
    · simp
    · simp
    · rcases ih h with hrest | hblank
      · simp [hrest]
      · exact .inr hblank
  | case2 ds => exact .inl h

theorem mem_numeral {bytes : List UInt8} {c : Char} (h : c ∈ (numeral bytes).toList) : c.isAlphanum ∨ c = ' ' := by
  rw [numeral, String.toList_ofList] at h
  rcases List.mem_cons.mp h with rfl | h
  · exact .inl rfl
  · rcases List.mem_cons.mp h with rfl | h
    · exact .inl rfl
    · rcases mem_spaced h with hdigit | hblank
      · have hsignificant : ∀ d ∈ significant bytes, d.isAlphanum := fun d hd =>
          isAlphanum_of_mem_digits ((List.dropWhile_sublist _).subset hd)
        exact .inl (isAlphanum_of_mem_padded hsignificant hdigit)
      · exact .inr hblank

/-! ### What a numeral tells -/

private theorem significant_zeros_append (n : Nat) (bytes : List UInt8) :
    significant (List.replicate n 0 ++ bytes) = significant bytes := by
  induction n with
  | zero => rfl
  | succ n ih => exact ih

theorem exists_zeros_append (ds : List Char) : ∃ n, ds = List.replicate n '0' ++ ds.dropWhile (· == '0') := by
  induction ds with
  | nil => exact ⟨0, rfl⟩
  | cons c ds ih =>
    by_cases hc : c = '0'
    · subst hc
      obtain ⟨n, hn⟩ := ih
      exact ⟨n + 1, congrArg ('0' :: ·) hn⟩
    · exact ⟨0, by simp [hc]⟩

private theorem length_digits (bytes : List UInt8) : (digits bytes).length = 2 * bytes.length := by
  induction bytes with
  | nil => rfl
  | cons b bytes ih =>
    have hcons : digits (b :: bytes) = pair b ++ digits bytes := rfl
    have hpair : (pair b).length = 2 := rfl
    rw [hcons, List.length_append, ih, hpair, List.length_cons]
    omega

private theorem significant_inj_of_length_eq {bytes others : List UInt8} (hlength : bytes.length = others.length)
    (h : significant bytes = significant others) : bytes = others := by
  obtain ⟨m, hm⟩ := exists_zeros_append (digits bytes)
  obtain ⟨n, hn⟩ := exists_zeros_append (digits others)
  change digits bytes = List.replicate m '0' ++ significant bytes at hm
  change digits others = List.replicate n '0' ++ significant others at hn
  have hmlength := congrArg List.length hm
  have hnlength := congrArg List.length hn
  rw [List.length_append, List.length_replicate, length_digits] at hmlength hnlength
  obtain rfl : m = n := by
    rw [h] at hmlength
    omega
  exact digits_injective (by rw [hm, hn, h])

/-- Zeros in front make bytes as long as others, and change neither the digits nor the number. -/
private theorem significant_eq_significant_iff {bytes others : List UInt8} :
    significant bytes = significant others ↔ BigEndian.value bytes = BigEndian.value others := by
  rw [← significant_zeros_append others.length bytes, ← significant_zeros_append bytes.length others,
    ← BigEndian.value_zeros_append others.length bytes, ← BigEndian.value_zeros_append bytes.length others]
  have hlength :
      (List.replicate others.length 0 ++ bytes).length = (List.replicate bytes.length 0 ++ others).length := by
    simp [Nat.add_comm]
  rw [BigEndian.value_inj_of_length_eq hlength]
  exact ⟨significant_inj_of_length_eq hlength, congrArg significant⟩

/-- The zeros that fill up a group are no digits of a number. -/
private theorem dropWhile_padded {ds : List Char} (h : ds.dropWhile (· == '0') = ds) :
    (padded ds).dropWhile (· == '0') = ds := by
  cases ds with
  | nil => rfl
  | cons c ds =>
    unfold padded
    rw [List.dropWhile_append_of_pos (by simp), if_neg (by simp), h]

/-- Without the blanks, the groups are what they were made of. -/
theorem filter_spaced {ds : List Char} (h : ∀ c ∈ ds, c ≠ ' ') : (spaced ds).filter (· ≠ ' ') = ds := by
  have hself : ∀ cs : List Char, (∀ c ∈ cs, c ≠ ' ') → cs.filter (· ≠ ' ') = cs := fun cs hcs => by simpa using hcs
  fun_induction spaced ds with
  | case1 a b c d e rest ih =>
    have hrest := ih fun x hx => h x (by simp only [List.mem_cons] at hx ⊢; tauto)
    simp only [List.mem_cons, forall_eq_or_imp] at h
    obtain ⟨ha, hb, hc, hd, -, -⟩ := h
    simp only [List.filter_cons, ha, hb, hc, hd, ne_eq, not_false_eq_true, decide_true, ↓reduceIte, not_true_eq_false,
      decide_false, Bool.false_eq_true, List.cons.injEq, true_and]
    exact hrest
  | case2 ds => exact hself ds h

theorem numeral_eq_numeral_iff {bytes others : List UInt8} :
    numeral bytes = numeral others ↔ BigEndian.value bytes = BigEndian.value others := by
  rw [← significant_eq_significant_iff]
  refine ⟨fun h => ?_, fun h => by rw [numeral, numeral, h]⟩
  have hread : ∀ bytes,
      (((numeral bytes).toList.drop 2).filter (· ≠ ' ')).dropWhile (· == '0') = significant bytes := by
    intro bytes
    have halphanum : ∀ c ∈ padded (significant bytes), c.isAlphanum := fun c hc =>
      isAlphanum_of_mem_padded (fun d hd => isAlphanum_of_mem_digits ((List.dropWhile_sublist _).subset hd)) hc
    have hblank : ∀ c ∈ padded (significant bytes), c ≠ ' ' := by
      rintro c hc rfl
      exact absurd (halphanum _ hc) (by decide)
    rw [numeral, String.toList_ofList, List.drop_succ_cons, List.drop_succ_cons, List.drop_zero, filter_spaced hblank]
    exact dropWhile_padded (List.dropWhile_idempotent (· == '0') (digits bytes))
  rw [← hread bytes, ← hread others, h]

end CertExtensions.Hex
