import CertExtensions.Proofs.ObjectId
import CertExtensions.Proofs.Reader

/-!
# Contents of object identifiers

The content of an object identifier has the shortest base 128 form of each of its numbers. The reader takes just the
contents in which every number fits a word and no digit but a last one is zero, which would be the byte 128
(`readable_iff`), and gives the object identifier whose content it is (`decode_eq_ok_iff`). So it undoes the writer, and
the writer undoes it.
-/

namespace CertExtensions.ObjectId

open Asn1

/-- The numbers of an object identifier, each in its shortest base 128 form. -/
def content (id : ObjectId) : List UInt8 :=
  id.numbers.flatMap encodeBase128

/-- Whether the first two arcs can be told apart in an encoding, and the reader takes every number: it fits a word, and
no digit but the last one is zero. -/
structure Readable (id : ObjectId) : Prop where
  registrable : isRegistrable id.arcs
  fits : ∀ n ∈ id.numbers, n < wordLimit
  innerZero : ∀ n ∈ id.numbers, ¬HasInnerZero n

/-! ### Numbers that have been read -/

private theorem base128Digits_fuel {fuel more n : Nat} (h : n ≤ fuel) (hmore : n ≤ more) :
    base128Digits fuel n = base128Digits more n := by
  induction fuel generalizing more n with
  | zero =>
    obtain rfl : n = 0 := by omega
    cases more <;> rfl
  | succ fuel ih =>
    cases more with
    | zero =>
      obtain rfl : n = 0 := by omega
      rfl
    | succ more =>
      by_cases hn : n = 0
      · rw [base128Digits, base128Digits, if_pos hn, if_pos hn]
      · rw [base128Digits_succ hn, base128Digits_succ hn,
          ih (show n / 128 ≤ fuel by omega) (show n / 128 ≤ more by omega)]

private theorem encodeBase128_digit {acc d : Nat} (h : d < 128) :
    encodeBase128 (acc * 128 + d) = base128Digits acc acc ++ [UInt8.ofNat d] := by
  have hdiv : (acc * 128 + d) / 128 = acc := by omega
  have hmod : (acc * 128 + d) % 128 = d := by omega
  rw [encodeBase128, hdiv, hmod, base128Digits_fuel (by omega) (Nat.le_refl acc)]

private theorem base128Digits_digit {acc d : Nat} (h : d < 128) (hne : d ≠ 0) :
    base128Digits (acc * 128 + d) (acc * 128 + d) = base128Digits acc acc ++ [UInt8.ofNat (128 + d)] := by
  obtain ⟨fuel, hfuel⟩ : ∃ fuel, acc * 128 + d = fuel + 1 := ⟨acc * 128 + d - 1, by omega⟩
  have hdiv : (acc * 128 + d) / 128 = acc := by omega
  have hmod : (acc * 128 + d) % 128 = d := by omega
  rw [base128Digits_fuel (Nat.le_refl _) (show acc * 128 + d ≤ fuel + 1 by omega), base128Digits_succ (by omega), hdiv,
    hmod, base128Digits_fuel (by omega) (Nat.le_refl acc)]

private theorem digits_digit {acc d : Nat} (h : d < 128) (hne : d ≠ 0) :
    Nat.digits 128 (acc * 128 + d) = d :: Nat.digits 128 acc := by
  have hdiv : (acc * 128 + d) / 128 = acc := by omega
  have hmod : (acc * 128 + d) % 128 = d := by omega
  rw [Nat.digits_def' (by omega) (by omega), hdiv, hmod]

private theorem hasInnerZero_digit {acc d : Nat} (h : d < 128) :
    HasInnerZero (acc * 128 + d) ↔ 0 ∈ Nat.digits 128 acc := by
  have hdiv : (acc * 128 + d) / 128 = acc := by omega
  rw [HasInnerZero, hdiv]

/-- A byte that has been read is the last digit of a number, or a digit that more digits follow. -/
private theorem readNumbers_cons_eq_ok {b : UInt8} {rest : List UInt8} {acc : Nat} {numbers : List Nat}
    (h : readNumbers acc (b :: rest) = .ok numbers) :
    acc * 128 < wordLimit ∧
      (b.toNat < 128 ∧ (∃ more, readNumbers 0 rest = .ok more ∧ numbers = (acc * 128 + b.toNat) :: more) ∨
        128 < b.toNat ∧ readNumbers (acc * 128 + (b.toNat - 128)) rest = .ok numbers) := by
  rw [readNumbers] at h
  split at h
  · cases h
  · next hne =>
    split at h
    · cases h
    · next hfits =>
      refine ⟨Nat.not_le.mp hfits, ?_⟩
      split at h
      · next hlt =>
        refine .inl ⟨UInt8.lt_iff_toNat_lt.mp hlt, ?_⟩
        obtain ⟨more, hmore, rfl⟩ := Reader.map_eq_ok h
        exact ⟨more, hmore, rfl⟩
      · next hge =>
        have hle : 128 ≤ b.toNat := Nat.not_lt.mp fun hlt => hge (UInt8.lt_iff_toNat_lt.mpr hlt)
        have hne' : 128 ≠ b.toNat := fun heq => hne (UInt8.toNat_inj.mp heq.symm)
        exact .inr ⟨Nat.lt_of_le_of_ne hle hne', h⟩

private theorem getLastD_of_cons {b : UInt8} {rest : List UInt8} (h : (b :: rest).getLastD 0 < 128) :
    rest.getLastD 0 < 128 ∧ (rest = [] → b.toNat < 128) := by
  cases rest with
  | nil => exact ⟨by decide, fun _ => UInt8.lt_iff_toNat_lt.mp h⟩
  | cons c rest => exact ⟨h, fun hnil => absurd hnil (List.cons_ne_nil _ _)⟩

/-- What is read behind the digits of the number that has begun: the digits and the bytes are what is written for the
numbers, of which the one that has begun is the first. -/
private theorem readNumbers_eq_ok {bytes : List UInt8} {acc : Nat} {numbers : List Nat}
    (h : readNumbers acc bytes = .ok numbers) (hlast : bytes.getLastD 0 < 128) (hbegun : bytes = [] → acc = 0)
    (hzero : 0 ∉ Nat.digits 128 acc) :
    base128Digits acc acc ++ bytes = numbers.flatMap encodeBase128 ∧
      ∀ n ∈ numbers, n < wordLimit ∧ ¬HasInnerZero n := by
  induction bytes generalizing acc numbers with
  | nil =>
    cases h
    rw [hbegun rfl]
    simp [base128Digits]
  | cons b rest ih =>
    obtain ⟨hrest, honly⟩ := getLastD_of_cons hlast
    obtain ⟨hfits, ⟨hd, more, hmore, rfl⟩ | ⟨hb, hread⟩⟩ := readNumbers_cons_eq_ok h
    · obtain ⟨hbytes, hall⟩ := ih hmore hrest (fun _ => rfl) (by simp)
      constructor
      · rw [List.flatMap_cons, encodeBase128_digit hd, ← hbytes, UInt8.ofNat_toNat, List.append_assoc]
        rfl
      · refine List.forall_mem_cons.mpr ⟨⟨?_, ?_⟩, hall⟩
        · unfold wordLimit at hfits ⊢
          omega
        · rw [hasInnerZero_digit hd]
          exact hzero
    · have hlt := b.toNat_lt
      have hd : b.toNat - 128 < 128 := by omega
      have hne : b.toNat - 128 ≠ 0 := by omega
      have hmore : rest = [] → acc * 128 + (b.toNat - 128) = 0 := by
        intro hnil
        have := honly hnil
        omega
      have hzero' : 0 ∉ Nat.digits 128 (acc * 128 + (b.toNat - 128)) := by
        rw [digits_digit hd hne, List.mem_cons, not_or]
        exact ⟨Ne.symm hne, hzero⟩
      obtain ⟨hbytes, hall⟩ := ih hread hrest hmore hzero'
      have hdigit : UInt8.ofNat (128 + (b.toNat - 128)) = b := by
        rw [Nat.add_sub_cancel' (Nat.le_of_lt hb), UInt8.ofNat_toNat]
      rw [base128Digits_digit hd hne, hdigit, List.append_assoc] at hbytes
      exact ⟨hbytes, hall⟩

/-! ### Object identifiers -/

private theorem numbers_firstArcs (n : Nat) (rest : List Nat) : numbers ⟨firstArcs n ++ rest⟩ = n :: rest := by
  unfold firstArcs
  split
  · simp [numbers]
  · split
    · simp [numbers]
      omega
    · simp [numbers]
      omega

private theorem isRegistrable_firstArcs (n : Nat) (rest : List Nat) : isRegistrable (firstArcs n ++ rest) := by
  unfold firstArcs
  split
  · simpa [isRegistrable]
  · split
    · simp [isRegistrable]
      omega
    · simp [isRegistrable]

private theorem firstArcs_numbers {id : ObjectId} (h : isRegistrable id.arcs) :
    ∃ n rest, id.numbers = n :: rest ∧ id = ⟨firstArcs n ++ rest⟩ := by
  obtain ⟨arcs⟩ := id
  match arcs with
  | [] | [_] => cases h
  | first :: second :: rest =>
    refine ⟨40 * first + second, rest, rfl, ?_⟩
    rw [firstArcs_join h]
    rfl

/-- A content is read exactly where it is that of an object identifier that the reader takes, and as this one. -/
theorem decode_eq_ok_iff {bytes : List UInt8} {id : ObjectId} :
    decode bytes = .ok id ↔ id.Readable ∧ bytes = id.content := by
  constructor
  · intro h
    unfold decode at h
    split at h
    · cases h
    · next hcheck =>
      rw [Bool.or_eq_true, not_or, decide_eq_true_eq, UInt8.not_le] at hcheck
      cases hread : readNumbers 0 bytes with
      | error fault =>
        simp only [hread] at h
        cases h
      | ok numbers =>
        obtain ⟨hbytes, hall⟩ := readNumbers_eq_ok hread hcheck.2 (fun _ => rfl) (by simp)
        cases numbers with
        | nil =>
          simp only [hread] at h
          cases h
        | cons n rest =>
          simp only [hread] at h
          cases h
          refine ⟨⟨isRegistrable_firstArcs n rest, ?_, ?_⟩, ?_⟩
          · rw [numbers_firstArcs]
            exact fun m hm => (hall m hm).1
          · rw [numbers_firstArcs]
            exact fun m hm => (hall m hm).2
          · rw [content, numbers_firstArcs]
            exact hbytes
  · rintro ⟨h, rfl⟩
    obtain ⟨n, rest, hnumbers, hid⟩ := firstArcs_numbers h.registrable
    have hfits := h.fits
    have hzero := h.innerZero
    rw [hnumbers] at hfits hzero
    rw [content, hnumbers, decode_flatMap hfits, if_neg, ← hid]
    rintro ⟨m, hm, hinner⟩
    exact hzero m hm hinner

theorem Readable.arcs_lt {id : ObjectId} (h : id.Readable) : ∀ arc ∈ id.arcs, arc < wordLimit := by
  have hfits := h.fits
  have hregistrable := h.registrable
  obtain ⟨arcs⟩ := id
  match arcs with
  | [] | [_] => cases hregistrable
  | first :: second :: rest =>
    have hnumbers : numbers ⟨first :: second :: rest⟩ = (40 * first + second) :: rest := rfl
    rw [hnumbers] at hfits
    intro arc harc
    have hjoined := hfits _ List.mem_cons_self
    rcases List.mem_cons.mp harc with rfl | harc
    · omega
    · rcases List.mem_cons.mp harc with rfl | harc
      · omega
      · exact hfits arc (List.mem_cons_of_mem _ harc)

/-! ### What is written -/

/-- What is written for an object identifier is its content. -/
theorem eq_content_of_encode? {id : ObjectId} {bytes : List UInt8} (h : id.encode? = some bytes) :
    bytes = id.content := by
  obtain ⟨arcs⟩ := id
  match arcs with
  | [] | [_] => cases h
  | first :: second :: rest =>
    simp only [encode?] at h
    split at h
    · cases h
      rfl
    · cases h

theorem numbers_lt_of_encode? {text : String} {id : ObjectId} {bytes : List UInt8} (h : ofDotted? text = some id)
    (hencode : id.encode? = some bytes) : ∀ n ∈ id.numbers, n < wordLimit := by
  obtain ⟨hregistrable, hlt⟩ := ofDotted?_spec h
  obtain ⟨arcs⟩ := id
  match arcs with
  | [] | [_] => cases hregistrable
  | first :: second :: rest =>
    simp only [encode?] at hencode
    split at hencode
    · next hsecond =>
      refine numbers_lt hregistrable hsecond fun arc harc => ?_
      exact hlt arc (List.mem_cons_of_mem _ (List.mem_cons_of_mem _ harc))
    · cases hencode

/-- The first number of a content ends where the digits with the top bit do. -/
private theorem encodeBase128_append_inj {m n : Nat} {rest rest' : List UInt8} (hm : m < wordLimit) (hn : n < wordLimit)
    (h : encodeBase128 m ++ rest = encodeBase128 n ++ rest') : m = n ∧ rest = rest' := by
  have hread := readBase128_encodeBase128 hm rest
  rw [h, readBase128_encodeBase128 hn rest', Except.ok.injEq, Prod.mk.injEq] at hread
  exact ⟨hread.1.symm, hread.2.symm⟩

private theorem flatMap_encodeBase128_inj {numbers others : List Nat} (hnumbers : ∀ n ∈ numbers, n < wordLimit)
    (hothers : ∀ n ∈ others, n < wordLimit)
    (h : numbers.flatMap encodeBase128 = others.flatMap encodeBase128) : numbers = others := by
  induction numbers generalizing others with
  | nil =>
    by_contra hne
    exact flatMap_ne_nil (Ne.symm hne) h.symm
  | cons n numbers ih =>
    cases others with
    | nil => exact absurd h (flatMap_ne_nil (List.cons_ne_nil n numbers))
    | cons m others =>
      rw [List.forall_mem_cons] at hnumbers hothers
      rw [List.flatMap_cons, List.flatMap_cons] at h
      obtain ⟨rfl, hrest⟩ := encodeBase128_append_inj hnumbers.1 hothers.1 h
      rw [ih hnumbers.2 hothers.2 hrest]

/-- Object identifiers whose numbers fit words have different contents, whether or not they can be read. -/
theorem content_inj {id other : ObjectId} (h : isRegistrable id.arcs) (hother : isRegistrable other.arcs)
    (hlt : ∀ n ∈ id.numbers, n < wordLimit) (hotherLt : ∀ n ∈ other.numbers, n < wordLimit) :
    id.content = other.content ↔ id = other := by
  refine ⟨fun hcontent => ?_, congrArg content⟩
  have hnumbers : id.numbers = other.numbers := flatMap_encodeBase128_inj hlt hotherLt hcontent
  obtain ⟨n, rest, hid, rfl⟩ := firstArcs_numbers h
  obtain ⟨m, more, hotherId, rfl⟩ := firstArcs_numbers hother
  rw [hid, hotherId] at hnumbers
  cases hnumbers
  rfl

end CertExtensions.ObjectId
