import CertExtensions.Proofs.Hex
import Mathlib.Order.Bounds.Defs

/-!
# Numerals in base 16

Digits form a number (`base16`), and the digits of bytes form the number that the bytes form (`base16_digits`). Neither
the zeros that are left out in front nor those that fill up the first group change it, so the numeral of bytes reads as
their number, in as few groups of four digits as there can be (`numeral_canonical`).
-/

namespace CertExtensions.Hex

/-- The upper case digits, each at the place of what it stands for. -/
def digitSigns : List Char :=
  ['0', '1', '2', '3', '4', '5', '6', '7', '8', '9', 'A', 'B', 'C', 'D', 'E', 'F']

/-- The number that digits form. -/
def base16 (ds : List Char) : Nat :=
  ds.foldl (fun n c => 16 * n + digitSigns.idxOf c) 0

variable {ds : List Char} {c : Char}

/-! ### Digits -/

private theorem idxOf_digit {n : Nat} (h : n < 16) : digitSigns.idxOf (digit n) = n := by
  have hall : ∀ i : Fin 16, digitSigns.idxOf (digit i) = i := by decide
  exact hall ⟨n, h⟩

theorem digit_mem_digitSigns {n : Nat} (h : n < 16) : digit n ∈ digitSigns := by
  have hall : ∀ i : Fin 16, digit i ∈ digitSigns := by decide
  exact hall ⟨n, h⟩

private theorem idxOf_lt (h : c ∈ digitSigns) : digitSigns.idxOf c < 16 :=
  List.idxOf_lt_length_of_mem h

theorem ne_blank_of_mem_digitSigns (h : c ∈ digitSigns) : c ≠ ' ' := by
  rintro rfl
  exact absurd h (by decide)

theorem mem_digitSigns_of_mem_digits {bytes : List UInt8} (h : c ∈ digits bytes) : c ∈ digitSigns := by
  obtain ⟨b, -, hc⟩ := List.mem_flatMap.mp h
  obtain ⟨hhigh, hlow⟩ := toNat_halves_lt b
  rcases List.mem_cons.mp hc with rfl | hc
  · exact digit_mem_digitSigns hhigh
  · rw [List.mem_singleton.mp hc]
    exact digit_mem_digitSigns hlow

/-! ### Numbers of digits -/

private theorem base16_append_singleton (ds : List Char) (c : Char) :
    base16 (ds ++ [c]) = 16 * base16 ds + digitSigns.idxOf c := by
  simp [base16, List.foldl_append]

private theorem base16_append (front back : List Char) :
    base16 (front ++ back) = base16 front * 16 ^ back.length + base16 back := by
  induction back using List.reverseRecOn with
  | nil => simp [base16]
  | append_singleton back c ih =>
    rw [← List.append_assoc, base16_append_singleton, base16_append_singleton, ih, List.length_append,
      List.length_singleton, Nat.pow_succ]
    ring

private theorem base16_cons (c : Char) (ds : List Char) :
    base16 (c :: ds) = digitSigns.idxOf c * 16 ^ ds.length + base16 ds := by
  have h := base16_append [c] ds
  simpa [base16] using h

private theorem base16_zeros_append (n : Nat) (ds : List Char) : base16 (List.replicate n '0' ++ ds) = base16 ds := by
  induction n with
  | zero => rfl
  | succ n ih =>
    have hzero : digitSigns.idxOf '0' = 0 := rfl
    rw [List.replicate_succ, List.cons_append, base16_cons, ih, hzero]
    omega

private theorem base16_lt (h : ∀ c ∈ ds, c ∈ digitSigns) : base16 ds < 16 ^ ds.length := by
  induction ds using List.reverseRecOn with
  | nil => simp [base16]
  | append_singleton ds c ih =>
    have hc := idxOf_lt (h c (by simp))
    have hds := ih fun d hd => h d (by simp [hd])
    rw [base16_append_singleton, List.length_append, List.length_singleton, Nat.pow_succ]
    omega

/-- A digit that is not zero counts in front of all others. -/
private theorem le_base16 (hne : c ≠ '0') (ds : List Char) : 16 ^ ds.length ≤ base16 (c :: ds) := by
  have hc : 1 ≤ digitSigns.idxOf c := by
    have hidx : digitSigns.idxOf c ≠ 0 := by simp [digitSigns, List.idxOf_cons, hne.symm]
    omega
  have hmul := Nat.mul_le_mul_right (16 ^ ds.length) hc
  rw [base16_cons]
  omega

theorem base16_pair (b : UInt8) : base16 (pair b) = b.toNat := by
  obtain ⟨hhigh, hlow⟩ := toNat_halves_lt b
  have hpair : base16 (pair b) =
      16 * digitSigns.idxOf (digit (b.toNat / 16)) + digitSigns.idxOf (digit (b.toNat % 16)) := by simp [base16, pair]
  rw [hpair, idxOf_digit hhigh, idxOf_digit hlow]
  omega

theorem base16_digits (bytes : List UInt8) : base16 (digits bytes) = BigEndian.value bytes := by
  induction bytes using List.reverseRecOn with
  | nil => rfl
  | append_singleton bytes b ih =>
    have hdigits : digits (bytes ++ [b]) = digits bytes ++ pair b := by simp [digits]
    have hpair : (pair b).length = 2 := rfl
    rw [hdigits, base16_append, ih, base16_pair, hpair, BigEndian.value_append_singleton]
    omega

private theorem base16_significant (bytes : List UInt8) : base16 (significant bytes) = BigEndian.value bytes := by
  obtain ⟨n, hn⟩ := exists_zeros_append (digits bytes)
  have hsplit : digits bytes = List.replicate n '0' ++ significant bytes := hn
  rw [← base16_digits, hsplit, base16_zeros_append]

/-! ### Groups -/

private theorem base16_padded (ds : List Char) : base16 (padded ds) = base16 ds := by
  unfold padded
  cases ds with
  | nil => rfl
  | cons c ds => exact base16_zeros_append _ _

/-- The digits of a number fill up groups of four, one group at the least. -/
private theorem length_padded (ds : List Char) : (padded ds).length = 4 * max 1 ((ds.length + 3) / 4) := by
  unfold padded
  cases ds with
  | nil => rfl
  | cons c ds =>
    simp
    omega

private theorem mem_digitSigns_of_mem_padded (h : ∀ c ∈ ds, c ∈ digitSigns) (hc : c ∈ padded ds) : c ∈ digitSigns := by
  unfold padded at hc
  rcases List.mem_append.mp hc with hzero | hc
  · rw [List.eq_of_mem_replicate hzero]
    decide
  · split at hc
    · rw [List.mem_singleton.mp hc]
      decide
    · exact h c hc

private theorem exists_groups {n : Nat} (h : ds.length = 4 * n) :
    ∃ groups : List (List Char), groups.length = n ∧ (∀ group ∈ groups, group.length = 4) ∧ groups.flatten = ds ∧
      spaced ds = Text.join ' ' groups := by
  induction n generalizing ds with
  | zero =>
    obtain rfl := List.length_eq_zero_iff.mp h
    exact ⟨[], rfl, nofun, rfl, rfl⟩
  | succ n ih =>
    match ds, h with
    | [a, b, c, d], h =>
      obtain rfl : n = 0 := by
        simp only [List.length_cons, List.length_nil] at h
        omega
      exact ⟨[[a, b, c, d]], rfl, by simp, rfl, rfl⟩
    | a :: b :: c :: d :: e :: rest, h =>
      have hrest : (e :: rest).length = 4 * n := by
        simp only [List.length_cons] at h ⊢
        omega
      obtain ⟨groups, hlength, hfour, hflatten, hspaced⟩ := ih hrest
      have hne : groups ≠ [] := by
        rintro rfl
        cases hflatten
      refine ⟨[a, b, c, d] :: groups, by simp [hlength], ?_, by simp [hflatten], ?_⟩
      · simpa using hfour
      · rw [spaced, hspaced, Text.join_cons_of_ne_nil _ _ hne]
        rfl

/-- A number that has digits but no zeros in front needs all its groups. -/
private theorem length_groups_le {n : Nat} (hhead : ds.dropWhile (· == '0') = ds) (hpos : 0 < n)
    (h : base16 ds < 16 ^ (4 * n)) : max 1 ((ds.length + 3) / 4) ≤ n := by
  cases ds with
  | nil => exact hpos
  | cons c ds =>
    have hne : c ≠ '0' := by
      rintro rfl
      have hlength := congrArg List.length hhead
      have hle := (List.dropWhile_sublist (· == '0') (l := ds)).length_le
      simp only [List.dropWhile_cons, beq_self_eq_true, ↓reduceIte, List.length_cons] at hlength
      omega
    have hlt := (Nat.pow_lt_pow_iff_right (by decide)).mp (Nat.lt_of_le_of_lt (le_base16 hne ds) h)
    simp only [List.length_cons]
    omega

/-- A numeral is `0x` and groups of four upper case digits with one blank between each two. Its digits form the number
of the bytes, in the fewest groups that this number has room in. So it tells the number of the bytes and nothing
else. -/
theorem numeral_canonical (bytes : List UInt8) :
    (∃ groups : List (List Char), (numeral bytes).toList = '0' :: 'x' :: Text.join ' ' groups ∧
      (∀ group ∈ groups, group.length = 4 ∧ ∀ c ∈ group, c ∈ digitSigns) ∧
      IsLeast {n | 0 < n ∧ BigEndian.value bytes < 16 ^ (4 * n)} groups.length) ∧
    base16 (((numeral bytes).toList.drop 2).filter (· ≠ ' ')) = BigEndian.value bytes ∧
    ∀ others, numeral bytes = numeral others ↔ BigEndian.value bytes = BigEndian.value others := by
  have hsigns : ∀ c ∈ padded (significant bytes), c ∈ digitSigns := fun c hc =>
    mem_digitSigns_of_mem_padded
      (fun d hd => mem_digitSigns_of_mem_digits ((List.dropWhile_sublist _).subset hd)) hc
  have hvalue : base16 (padded (significant bytes)) = BigEndian.value bytes := by
    rw [base16_padded, base16_significant]
  have htext : (numeral bytes).toList = '0' :: 'x' :: spaced (padded (significant bytes)) := String.toList_ofList
  refine ⟨?_, ?_, fun others => numeral_eq_numeral_iff⟩
  · have hlength := length_padded (significant bytes)
    obtain ⟨groups, hcount, hfour, hflatten, hspaced⟩ := exists_groups hlength
    refine ⟨groups, by rw [htext, hspaced], fun group hgroup => ⟨hfour group hgroup, fun c hc => ?_⟩, ?_, ?_⟩
    · exact hsigns c (hflatten ▸ List.mem_flatten.mpr ⟨group, hgroup, hc⟩)
    · have hlt := base16_lt hsigns
      rw [hvalue, hlength, ← hcount] at hlt
      exact ⟨by omega, hlt⟩
    · rintro n ⟨hpos, hlt⟩
      rw [← base16_significant] at hlt
      rw [hcount]
      exact length_groups_le (List.dropWhile_idempotent (· == '0') (digits bytes)) hpos hlt
  · rw [htext, List.drop_succ_cons, List.drop_succ_cons, List.drop_zero,
      filter_spaced fun c hc => ne_blank_of_mem_digitSigns (hsigns c hc), hvalue]

/-- Zero has a group of its own. -/
example : numeral [] = "0x0000" ∧ numeral [0, 0, 1, 171, 205, 239] = "0x01AB CDEF" := by decide

end CertExtensions.Hex
