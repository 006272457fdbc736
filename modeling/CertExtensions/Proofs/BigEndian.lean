import CertExtensions.BigEndian
import Mathlib.Data.List.Induction
import Mathlib.Tactic.ByContra
import Mathlib.Tactic.Ring

/-!
# Writing and reading big-endian numbers

The readers of `BigEndian` take back what its writers produce: `value_fixed` for a given number of bytes,
`value_shortest` for the fewest bytes, and `signedValue_fixed` for two's complement, where the top bit has to stay
clear. The other way round, bytes are those that are written of their number (`fixed_value`). `signedValue_eq` says how
the signed and the unsigned number of the same bytes differ.
-/

namespace CertExtensions.BigEndian

/-! ### Unsigned numbers -/

private theorem value_append (front back : List UInt8) :
    value (front ++ back) = value front * 256 ^ back.length + value back := by
  induction back using List.reverseRecOn with
  | nil => simp
  | append_singleton back b ih =>
    rw [← List.append_assoc, value_append_singleton, value_append_singleton, ih, List.length_append,
      List.length_singleton, Nat.pow_succ]
    ring

theorem value_cons (b : UInt8) (rest : List UInt8) :
    value (b :: rest) = b.toNat * 256 ^ rest.length + value rest := by
  have h := value_append [b] rest
  simpa [value] using h

theorem value_zero_cons (rest : List UInt8) : value (0 :: rest) = value rest := by
  simp [value_cons]

theorem value_zeros_append (n : Nat) (bytes : List UInt8) : value (List.replicate n 0 ++ bytes) = value bytes := by
  induction n with
  | zero => rfl
  | succ n ih => rw [List.replicate_succ, List.cons_append, value_zero_cons, ih]

theorem value_lt (bytes : List UInt8) : value bytes < 256 ^ bytes.length := by
  induction bytes using List.reverseRecOn with
  | nil => simp
  | append_singleton bytes b ih =>
    have hb : b.toNat < 256 := b.toNat_lt
    rw [value_append_singleton, List.length_append, List.length_singleton, Nat.pow_succ]
    omega

theorem toNat_ofNat_of_lt {n : Nat} (h : n < 256) : (UInt8.ofNat n).toNat = n := by
  rw [UInt8.toNat_ofNat', Nat.mod_eq_of_lt h]

theorem ofNat_lt_half_iff {n : Nat} (h : n < 256) : UInt8.ofNat n < 128 ↔ n < 128 := by
  rw [UInt8.lt_iff_toNat_lt, toNat_ofNat_of_lt h]
  rfl

theorem ofNat_eq_iff {n : Nat} (h : n < 256) (b : UInt8) : UInt8.ofNat n = b ↔ n = b.toNat := by
  rw [← UInt8.toNat_inj, toNat_ofNat_of_lt h]

/-- Of a number that is too large, the lowest bytes are written. -/
theorem value_fixed (n v : Nat) : value (fixed n v) = v % 256 ^ n := by
  induction n generalizing v with
  | zero => simp [fixed, Nat.mod_one]
  | succ n ih =>
    have hb : v % 256 < 256 := Nat.mod_lt _ (by omega)
    rw [fixed, value_append_singleton, ih, toNat_ofNat_of_lt hb, Nat.pow_succ, Nat.mul_comm (256 ^ n), Nat.mod_mul]
    omega

theorem value_fixed_of_lt {n v : Nat} (h : v < 256 ^ n) : value (fixed n v) = v := by
  rw [value_fixed, Nat.mod_eq_of_lt h]

/-- As many bytes as the number was read of are those bytes. -/
theorem fixed_value (bytes : List UInt8) : fixed bytes.length (value bytes) = bytes := by
  induction bytes using List.reverseRecOn with
  | nil => rfl
  | append_singleton bytes b ih =>
    have hb : b.toNat < 256 := b.toNat_lt
    have hfront : (256 * value bytes + b.toNat) / 256 = value bytes := by omega
    have hlast : (256 * value bytes + b.toNat) % 256 = b.toNat := by omega
    rw [List.length_append, List.length_singleton, value_append_singleton, fixed, hfront, hlast, ih,
      UInt8.ofNat_toNat]

theorem eq_fixed_of_value {bytes : List UInt8} {n v : Nat} (hlength : bytes.length = n) (hvalue : value bytes = v) :
    bytes = fixed n v := by
  rw [← hlength, ← hvalue, fixed_value]

theorem value_inj_of_length_eq {bytes others : List UInt8} (hlength : bytes.length = others.length) :
    value bytes = value others ↔ bytes = others := by
  refine ⟨fun h => ?_, fun h => h ▸ rfl⟩
  rw [← fixed_value bytes, ← fixed_value others, hlength, h]

/-! ### Two's complement -/

/-- The signed number is the unsigned one as long as that is in the lower half of its range. -/
theorem signedValue_eq (bytes : List UInt8) :
    signedValue bytes =
      if 2 * value bytes < 256 ^ bytes.length then (value bytes : Int)
      else value bytes - (256 ^ bytes.length : Nat) := by
  cases bytes with
  | nil => simp [signedValue]
  | cons b rest =>
    have hv := value_cons b rest
    have hlt := value_lt rest
    have hp : 0 < 256 ^ rest.length := Nat.pow_pos (by omega)
    have htop : b < 128 ↔ 2 * value (b :: rest) < 256 ^ (rest.length + 1) := by
      rw [UInt8.lt_iff_toNat_lt, hv, Nat.pow_succ]
      change b.toNat < 128 ↔ _
      constructor
      · intro h
        have : b.toNat * 256 ^ rest.length ≤ 127 * 256 ^ rest.length := Nat.mul_le_mul_right _ (by omega)
        omega
      · intro h
        by_contra hb
        have : 128 * 256 ^ rest.length ≤ b.toNat * 256 ^ rest.length := Nat.mul_le_mul_right _ (by omega)
        omega
    rw [signedValue, List.length_cons]
    by_cases h : b < 128
    · rw [if_pos h, if_pos (htop.mp h)]
    · rw [if_neg h, if_neg fun hc => h (htop.mpr hc)]
      rfl

theorem signedValue_fixed {n v : Nat} (h : 2 * v < 256 ^ n) : signedValue (fixed n v) = v := by
  have hv : value (fixed n v) = v := value_fixed_of_lt (by omega)
  rw [signedValue_eq, hv, length_fixed, if_pos h]

/-- A signed number that is not negative is the unsigned one. -/
theorem value_of_signedValue {bytes : List UInt8} {v : Nat} (h : signedValue bytes = v) :
    value bytes = v ∧ 2 * v < 256 ^ bytes.length := by
  have hlt := value_lt bytes
  rw [signedValue_eq] at h
  split at h <;> omega

/-- The top bit is the sign. -/
theorem signedValue_nonneg_iff (b : UInt8) (rest : List UInt8) : 0 ≤ signedValue (b :: rest) ↔ b < 128 := by
  have hlt : value (b :: rest) < Nat.pow 256 (rest.length + 1) := value_lt (b :: rest)
  unfold signedValue
  by_cases hb : b < 128
  · simp [hb]
  · simp only [hb, ↓reduceIte, iff_false]
    omega

theorem signedValue_of_lt {b : UInt8} (h : b < 128) (rest : List UInt8) :
    signedValue (b :: rest) = value (b :: rest) := by
  rw [signedValue, if_pos h]

/-! ### The fewest bytes -/

private theorem digits_succ {fuel n : Nat} (h : n ≠ 0) :
    digits (fuel + 1) n = digits fuel (n / 256) ++ [UInt8.ofNat (n % 256)] := by
  rw [digits, if_neg h]

private theorem value_digits {fuel n : Nat} (h : n ≤ fuel) : value (digits fuel n) = n := by
  induction fuel generalizing n with
  | zero =>
    obtain rfl : n = 0 := by omega
    rfl
  | succ fuel ih =>
    by_cases hn : n = 0
    · simp [digits, hn]
    · have hb : n % 256 < 256 := Nat.mod_lt _ (by omega)
      rw [digits_succ hn, value_append_singleton, ih (by omega), toNat_ofNat_of_lt hb]
      omega

theorem length_digits_le {fuel n k : Nat} (h : n < 256 ^ k) : (digits fuel n).length ≤ k := by
  induction fuel generalizing n k with
  | zero => simp [digits]
  | succ fuel ih =>
    by_cases hn : n = 0
    · simp [digits, hn]
    · cases k with
      | zero =>
        rw [Nat.pow_zero] at h
        omega
      | succ k =>
        have hk : n / 256 < 256 ^ k := by
          rw [Nat.pow_succ] at h
          omega
        have := ih hk
        rw [digits_succ hn, List.length_append, List.length_singleton]
        omega

theorem value_shortest (n : Nat) : value (shortest n) = n :=
  value_digits (Nat.le_refl n)

end CertExtensions.BigEndian
