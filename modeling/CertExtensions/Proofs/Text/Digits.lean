import CertExtensions.Text.Split
import Mathlib.Data.Nat.Init

/-!
# Digits of numbers

In a base up to sixteen each digit of a number is one of sixteen characters (`mem_toDigits`), and no other character is
in its text (`IsMark.not_mem_toDigits`). The digits tell the number (`toDigits_injective`), and numbers with a mark
between each two are told by the whole text (`IsMark.join_digits_injective`).
-/

namespace CertExtensions.Text

variable {base : Nat}

private theorem digitChar_inj {d e : Nat} (hd : d < 16) (he : e < 16) (h : Nat.digitChar d = Nat.digitChar e) :
    d = e := by
  have hall : ∀ i j : Fin 16, Nat.digitChar i = Nat.digitChar j → i = j := by decide
  exact Fin.mk.inj (hall ⟨d, hd⟩ ⟨e, he⟩ h)

theorem mem_toDigits (hbase : 1 < base) {n : Nat} {c : Char} (h : c ∈ Nat.toDigits base n) :
    ∃ d < base, c = Nat.digitChar d := by
  induction n using Nat.strong_induction_on with
  | _ n ih =>
    by_cases hlt : n < base
    · rw [Nat.toDigits_of_lt_base hlt, List.mem_singleton] at h
      exact ⟨n, hlt, h⟩
    · rw [Nat.toDigits_of_base_le hbase (Nat.not_lt.mp hlt), List.mem_append, List.mem_singleton] at h
      rcases h with h | h
      · exact ih (n / base) (Nat.div_lt_self (by omega) hbase) h
      · exact ⟨n % base, Nat.mod_lt n (by omega), h⟩

/-- Whether the character is no digit in any of the bases. -/
def IsMark (c : Char) : Prop :=
  ∀ d : Fin 16, c ≠ Nat.digitChar d

instance : DecidablePred IsMark := fun c =>
  inferInstanceAs (Decidable (∀ d : Fin 16, c ≠ Nat.digitChar d))

theorem IsMark.not_mem_toDigits {c : Char} (h : IsMark c) (hbase : 1 < base) (hle : base ≤ 16) (n : Nat) :
    c ∉ Nat.toDigits base n := by
  intro hmem
  obtain ⟨d, hd, hc⟩ := mem_toDigits hbase hmem
  exact h ⟨d, by omega⟩ hc

private theorem length_toDigits_eq_one_iff (hbase : 1 < base) {n : Nat} :
    (Nat.toDigits base n).length = 1 ↔ n < base := by
  by_cases h : n < base
  · rw [Nat.toDigits_of_lt_base h]
    exact iff_of_true rfl h
  · have hfront := List.length_pos_iff.mpr (Nat.toDigits_ne_nil (b := base) (n := n / base))
    rw [Nat.toDigits_of_base_le hbase (Nat.not_lt.mp h), List.length_append, List.length_singleton]
    omega

theorem toDigits_injective (hbase : 1 < base) (hle : base ≤ 16) : Function.Injective (Nat.toDigits base) := by
  intro m n h
  induction m using Nat.strong_induction_on generalizing n with
  | _ m ih =>
    have hone : m < base ↔ n < base := by
      rw [← length_toDigits_eq_one_iff hbase, ← length_toDigits_eq_one_iff hbase, h]
    by_cases hm : m < base
    · have hn := hone.mp hm
      rw [Nat.toDigits_of_lt_base hm, Nat.toDigits_of_lt_base hn] at h
      exact digitChar_inj (by omega) (by omega) (List.cons.inj h).1
    · have hn := mt hone.mpr hm
      have hmodM := Nat.mod_lt m (show 0 < base by omega)
      have hmodN := Nat.mod_lt n (show 0 < base by omega)
      rw [Nat.toDigits_of_base_le hbase (Nat.not_lt.mp hm), Nat.toDigits_of_base_le hbase (Nat.not_lt.mp hn)] at h
      -- the last digits agree, and so do the digits in front of them
      obtain ⟨hfront, hlast⟩ := List.append_inj' h rfl
      have hdiv := ih (m / base) (Nat.div_lt_self (by omega) hbase) hfront
      have hmod := digitChar_inj (by omega) (by omega) (List.cons.inj hlast).1
      rw [← Nat.div_add_mod m base, ← Nat.div_add_mod n base, hdiv, hmod]

/-! ### Numbers between marks -/

namespace IsMark

variable {c separator : Char} {numbers : List Nat}

theorem not_mem_join_digits (h : IsMark c) (hne : c ≠ separator) (hbase : 1 < base) (hle : base ≤ 16)
    (numbers : List Nat) : c ∉ join separator (numbers.map (Nat.toDigits base)) := by
  rw [mem_join_iff_of_ne hne]
  rintro ⟨piece, hpiece, hc⟩
  obtain ⟨n, -, rfl⟩ := List.mem_map.mp hpiece
  exact h.not_mem_toDigits hbase hle n hc

theorem split_join_digits (h : IsMark separator) (hbase : 1 < base) (hle : base ≤ 16) (hne : numbers ≠ []) :
    split separator (join separator (numbers.map (Nat.toDigits base))) = numbers.map (Nat.toDigits base) := by
  refine split_join (mt List.map_eq_nil_iff.mp hne) fun piece hpiece => ?_
  obtain ⟨n, -, rfl⟩ := List.mem_map.mp hpiece
  exact h.not_mem_toDigits hbase hle n

private theorem join_digits_ne_nil (h : IsMark separator) (hbase : 1 < base) (hle : base ≤ 16) (hne : numbers ≠ []) :
    join separator (numbers.map (Nat.toDigits base)) ≠ [] := by
  intro hnil
  have hsplit := h.split_join_digits hbase hle hne
  obtain ⟨n, more, rfl⟩ := List.exists_cons_of_ne_nil hne
  rw [hnil] at hsplit
  -- the one piece of no text would have to be the digits of the first number
  exact Nat.toDigits_ne_nil (List.cons.inj hsplit).1.symm

theorem join_digits_injective (h : IsMark separator) (hbase : 1 < base) (hle : base ≤ 16) :
    Function.Injective fun numbers : List Nat => join separator (numbers.map (Nat.toDigits base)) := by
  intro a b heq
  dsimp only at heq
  by_cases ha : a = []
  · by_cases hb : b = []
    · rw [ha, hb]
    · rw [ha] at heq
      exact absurd heq.symm (h.join_digits_ne_nil hbase hle hb)
  · by_cases hb : b = []
    · rw [hb] at heq
      exact absurd heq (h.join_digits_ne_nil hbase hle ha)
    · have hsplit := congrArg (split separator) heq
      rw [h.split_join_digits hbase hle ha, h.split_join_digits hbase hle hb] at hsplit
      exact (List.map_inj_right fun _ _ hdigits => toDigits_injective hbase hle hdigits).mp hsplit

end IsMark

end CertExtensions.Text
