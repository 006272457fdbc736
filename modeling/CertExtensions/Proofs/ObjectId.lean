import CertExtensions.Oid.Basic
import CertExtensions.Proofs.Asn1.Header
import Mathlib.Data.Nat.Digits.Defs

/-!
# Writing and reading object identifiers

A dotted text that is accepted has arcs that can be told apart in an encoding (`ofDotted?_spec`). Writing puts each
number in base 128, where a digit in front of the last one is a byte from 128 on. The reader takes the byte 128 for a
superfluous zero wherever it stands. So what is written is read back exactly where no number has a zero digit in front
of its last digit and behind its first (`decode_encode?`).
-/

namespace CertExtensions.ObjectId

open Asn1
open BigEndian (toNat_ofNat_of_lt ofNat_lt_half_iff ofNat_eq_iff)

/-! ### One number -/

/-- The base 128 form of the number has a zero digit in front of the last digit. -/
def HasInnerZero (n : Nat) : Prop :=
  0 ∈ Nat.digits 128 (n / 128)

instance : DecidablePred HasInnerZero := fun n =>
  inferInstanceAs (Decidable (0 ∈ Nat.digits 128 (n / 128)))

private theorem readNumbers_zero (acc : Nat) (rest : List UInt8) :
    readNumbers acc (UInt8.ofNat (128 + 0) :: rest) = .error .invalid := by
  rw [readNumbers, if_pos (by decide)]

private theorem readNumbers_more {acc d : Nat} (hd : d < 128) (hne : d ≠ 0) (h : acc * 128 < wordLimit)
    (rest : List UInt8) :
    readNumbers acc (UInt8.ofNat (128 + d) :: rest) = readNumbers (acc * 128 + d) rest := by
  have hb : (UInt8.ofNat (128 + d)).toNat = 128 + d := toNat_ofNat_of_lt (by omega)
  have hzero : UInt8.ofNat (128 + d) ≠ 128 := by
    rw [Ne, ofNat_eq_iff (by omega)]
    change ¬128 + d = 128
    omega
  have hge : ¬UInt8.ofNat (128 + d) < 128 := by
    rw [ofNat_lt_half_iff (by omega)]
    omega
  rw [readNumbers, if_neg hzero, if_neg (by omega), if_neg hge, hb, Nat.add_sub_cancel_left]

private theorem readNumbers_last {acc d : Nat} (hd : d < 128) (h : acc * 128 < wordLimit) (rest : List UInt8) :
    readNumbers acc (UInt8.ofNat d :: rest) = (readNumbers 0 rest).map ((acc * 128 + d) :: ·) := by
  have hb : (UInt8.ofNat d).toNat = d := toNat_ofNat_of_lt (by omega)
  have hlt : UInt8.ofNat d < 128 := (ofNat_lt_half_iff (by omega)).mpr hd
  have hne : UInt8.ofNat d ≠ 128 := by
    rintro heq
    rw [heq] at hlt
    exact absurd hlt (by decide)
  rw [readNumbers, if_neg hne, if_neg (by omega), if_pos hlt, hb]

/-- Digits that more digits follow: a zero among them is refused. -/
private theorem readNumbers_base128Digits {fuel n : Nat} (hf : n ≤ fuel) (h : n < wordLimit) (rest : List UInt8) :
    readNumbers 0 (base128Digits fuel n ++ rest) =
      if 0 ∈ Nat.digits 128 n then .error .invalid else readNumbers n rest := by
  induction fuel generalizing n rest with
  | zero =>
    obtain rfl : n = 0 := by omega
    simp [base128Digits]
  | succ fuel ih =>
    by_cases hn : n = 0
    · subst hn
      simp [base128Digits]
    · have hd : n % 128 < 128 := Nat.mod_lt _ (by omega)
      have hw : n / 128 * 128 < wordLimit := by omega
      have hdigits : Nat.digits 128 n = n % 128 :: Nat.digits 128 (n / 128) :=
        Nat.digits_def' (by omega) (by omega)
      rw [base128Digits_succ hn, List.append_assoc, List.singleton_append, ih (by omega) (by omega), hdigits]
      -- a zero is refused in front of the last digit, or else as the last digit
      by_cases hfront : 0 ∈ Nat.digits 128 (n / 128)
      · rw [if_pos hfront, if_pos (List.mem_cons_of_mem _ hfront)]
      · rw [if_neg hfront]
        by_cases hzero : n % 128 = 0
        · rw [if_pos (List.mem_cons.mpr (.inl hzero.symm)), hzero, readNumbers_zero]
        · have hnot : 0 ∉ n % 128 :: Nat.digits 128 (n / 128) := by
            rw [List.mem_cons, not_or]
            exact ⟨Ne.symm hzero, hfront⟩
          rw [if_neg hnot, readNumbers_more hd hzero hw]
          congr 1
          omega

/-- A number is read back unless it has a zero digit that more digits follow. -/
private theorem readNumbers_encodeBase128 {n : Nat} (h : n < wordLimit) (rest : List UInt8) :
    readNumbers 0 (encodeBase128 n ++ rest) =
      if HasInnerZero n then .error .invalid else (readNumbers 0 rest).map (n :: ·) := by
  have hd : n % 128 < 128 := Nat.mod_lt _ (by omega)
  have hw : n / 128 * 128 < wordLimit := by omega
  rw [encodeBase128, List.append_assoc, List.singleton_append, readNumbers_base128Digits (by omega) (by omega)]
  have hn : n / 128 * 128 + n % 128 = n := by omega
  by_cases hzero : HasInnerZero n
  · rw [if_pos hzero, if_pos (show 0 ∈ Nat.digits 128 (n / 128) from hzero)]
  · rw [if_neg hzero, if_neg (show 0 ∉ Nat.digits 128 (n / 128) from hzero), readNumbers_last hd hw, hn]

/-! ### All numbers -/

private theorem readNumbers_flatMap {numbers : List Nat} (h : ∀ n ∈ numbers, n < wordLimit) :
    readNumbers 0 (numbers.flatMap encodeBase128) =
      if ∃ n ∈ numbers, HasInnerZero n then .error .invalid else .ok numbers := by
  induction numbers with
  | nil => simp [readNumbers]
  | cons n numbers ih =>
    rw [List.flatMap_cons, readNumbers_encodeBase128 (h n List.mem_cons_self),
      ih fun m hm => h m (List.mem_cons_of_mem _ hm)]
    by_cases hn : HasInnerZero n
    · rw [if_pos hn, if_pos ⟨n, List.mem_cons_self, hn⟩]
    · by_cases hrest : ∃ m ∈ numbers, HasInnerZero m
      · obtain ⟨m, hm, hzero⟩ := hrest
        rw [if_neg hn, if_pos ⟨m, hm, hzero⟩, if_pos ⟨m, List.mem_cons_of_mem _ hm, hzero⟩]
        rfl
      · have hnone : ¬∃ m ∈ n :: numbers, HasInnerZero m := by
          rintro ⟨m, hm, hzero⟩
          rcases List.mem_cons.mp hm with rfl | hm
          · exact hn hzero
          · exact hrest ⟨m, hm, hzero⟩
        rw [if_neg hn, if_neg hrest, if_neg hnone]
        rfl

/-- The last byte of written numbers has the top bit clear. -/
private theorem getLastD_flatMap {numbers : List Nat} (hne : numbers ≠ []) :
    (numbers.flatMap encodeBase128).getLastD 0 < 128 := by
  rw [← List.dropLast_concat_getLast hne, List.flatMap_append, List.flatMap_singleton, encodeBase128,
    ← List.append_assoc, List.getLastD_concat, ofNat_lt_half_iff (by omega)]
  exact Nat.mod_lt _ (by omega)

theorem flatMap_ne_nil {numbers : List Nat} (hne : numbers ≠ []) : numbers.flatMap encodeBase128 ≠ [] := by
  cases numbers with
  | nil => exact absurd rfl hne
  | cons n numbers => simp [encodeBase128]

theorem decode_flatMap {first : Nat} {rest : List Nat} (h : ∀ n ∈ first :: rest, n < wordLimit) :
    decode ((first :: rest).flatMap encodeBase128) =
      if ∃ n ∈ first :: rest, HasInnerZero n then .error .invalid else .ok ⟨firstArcs first ++ rest⟩ := by
  have hne := List.cons_ne_nil first rest
  have hempty : ((first :: rest).flatMap encodeBase128).isEmpty = false := by
    rw [List.isEmpty_eq_false_iff]
    exact flatMap_ne_nil hne
  have hlast := getLastD_flatMap hne
  have hcheck : ¬(((first :: rest).flatMap encodeBase128).isEmpty ||
      decide (128 ≤ ((first :: rest).flatMap encodeBase128).getLastD 0)) = true := by
    rw [hempty, Bool.false_or, decide_eq_true_eq, UInt8.not_le]
    exact hlast
  rw [decode, if_neg hcheck, readNumbers_flatMap h]
  by_cases hzero : ∃ n ∈ first :: rest, HasInnerZero n
  · rw [if_pos hzero, if_pos hzero]
  · rw [if_neg hzero, if_neg hzero]

/-! ### Texts and encodings -/

private theorem number?_lt {digits : List Char} {n : Nat} (h : number? digits = some n) : n < wordLimit := by
  unfold number? at h
  split at h
  · cases h
  · dsimp only at h
    split at h
    · next hlt =>
      cases h
      exact hlt
    · cases h

private theorem arc?_lt {text : List Char} {n : Nat} (h : arc? text = some n) : n < wordLimit := by
  unfold arc? at h
  split at h <;> exact number?_lt h

private theorem lt_of_mem_mapM {pieces : List (List Char)} {arcs : List Nat} (h : pieces.mapM arc? = some arcs) :
    ∀ arc ∈ arcs, arc < wordLimit := by
  induction pieces generalizing arcs with
  | nil =>
    cases h
    simp
  | cons piece pieces ih =>
    rw [List.mapM_cons] at h
    obtain ⟨arc, harc, h⟩ := Option.bind_eq_some_iff.mp h
    obtain ⟨others, hothers, h⟩ := Option.bind_eq_some_iff.mp h
    cases h
    intro x hx
    rcases List.mem_cons.mp hx with rfl | hx
    · exact arc?_lt harc
    · exact ih hothers x hx

/-- The arcs of an accepted text fit words, and their first two can be told apart once they are joined. -/
theorem ofDotted?_spec {text : String} {id : ObjectId} (h : ofDotted? text = some id) :
    isRegistrable id.arcs ∧ ∀ arc ∈ id.arcs, arc < wordLimit := by
  unfold ofDotted? at h
  cases harcs : (Text.split '.' text.toList).mapM arc? with
  | none =>
    rw [harcs] at h
    cases h
  | some arcs =>
    rw [harcs] at h
    dsimp only at h
    split at h
    · next hregistrable =>
      cases h
      exact ⟨hregistrable, lt_of_mem_mapM harcs⟩
    · cases h

/-- The numbers that are written for an object identifier: its first two arcs in one, then the others. -/
def numbers (id : ObjectId) : List Nat :=
  match id.arcs with
  | first :: second :: rest => (40 * first + second) :: rest
  | arcs => arcs

theorem firstArcs_join {first second : Nat} (h : isRegistrable (first :: second :: [])) :
    firstArcs (40 * first + second) = [first, second] := by
  unfold isRegistrable at h
  rw [Bool.and_eq_true, Bool.or_eq_true, decide_eq_true_eq, beq_iff_eq, decide_eq_true_eq] at h
  unfold firstArcs
  obtain ⟨hfirst, hsecond⟩ := h
  have : first = 0 ∨ first = 1 ∨ first = 2 := by omega
  rcases this with rfl | rfl | rfl
  · rw [if_pos (by omega)]
    congr 2
    omega
  · rw [if_neg (by omega), if_pos (by omega)]
    congr 2
    omega
  · rw [if_neg (by omega), if_neg (by omega)]
    congr 2
    omega

theorem numbers_lt {first second : Nat} {rest : List Nat} (hregistrable : isRegistrable (first :: second :: rest))
    (hsecond : second < secondArcLimit) (hrest : ∀ arc ∈ rest, arc < wordLimit) :
    ∀ n ∈ (40 * first + second) :: rest, n < wordLimit := by
  intro n hn
  rcases List.mem_cons.mp hn with rfl | hn
  · unfold isRegistrable at hregistrable
    rw [Bool.and_eq_true, decide_eq_true_eq] at hregistrable
    unfold secondArcLimit at hsecond
    unfold wordLimit
    omega
  · exact hrest n hn

/-- What is written for an accepted text is read back unless a number has a zero digit that more digits follow. -/
theorem decode_encode? {text : String} {id : ObjectId} (h : ofDotted? text = some id) {content : List UInt8}
    (hencode : id.encode? = some content) :
    decode content = if ∃ n ∈ id.numbers, HasInnerZero n then .error .invalid else .ok id := by
  obtain ⟨hregistrable, hlt⟩ := ofDotted?_spec h
  obtain ⟨arcs⟩ := id
  match arcs with
  | [] | [_] => cases hencode
  | first :: second :: rest =>
    simp only [encode?] at hencode
    split at hencode
    · next hsecond =>
      cases hencode
      have hrest : ∀ arc ∈ rest, arc < wordLimit := by
        intro arc harc
        exact hlt arc (List.mem_cons_of_mem _ (List.mem_cons_of_mem _ harc))
      rw [decode_flatMap (numbers_lt hregistrable hsecond hrest), firstArcs_join hregistrable]
      rfl
    · cases hencode

end CertExtensions.ObjectId
