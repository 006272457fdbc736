import CertExtensions.Oid.Names
import CertExtensions.Proofs.ObjectId
import CertExtensions.Proofs.Text.Digits
import CertExtensions.Text.Split
import Mathlib.Data.List.Nodup

/-!
# Dotted texts

The text that is written for arcs is read back exactly where they are the arcs of an object identifier and fit words
(`ofDotted?_dotted_eq`), and no two object identifiers have one text (`dotted_injective`). Other texts are accepted as
well: an arc may have a plus sign and zeros in front. Without these an accepted text is the one that is written
(`dotted_of_ofDotted?`), so that two texts stand for one object identifier exactly where they differ in nothing else
(`eq_iff_plainText_eq`). A table of names keeps object identifiers apart if its names are different and none of them
could be a dotted text (`nameIn_injective`).
-/

namespace CertExtensions.ObjectId

open Asn1

/-! ### Decimal digits -/

private theorem digitChar_of_isDigit {c : Char} (h : c.isDigit) :
    c.toNat - '0'.toNat < 10 ∧ Nat.digitChar (c.toNat - '0'.toNat) = c := by
  obtain ⟨hlow, hhigh⟩ := Char.isDigit_iff_toNat.mp h
  have hlow : 48 ≤ c.toNat := hlow
  have hhigh : c.toNat ≤ 57 := hhigh
  have hlt : c.toNat - 48 < 10 := by omega
  refine ⟨hlt, ?_⟩
  apply Char.toNat_inj.mp
  have hsub := Nat.toNat_digitChar_sub_48_of_lt_ten hlt
  have hdigit : (Nat.digitChar (c.toNat - 48)).isDigit := by
    rw [Nat.isDigit_digitChar, decide_eq_true_eq]
    exact hlt
  have hge : 48 ≤ (Nat.digitChar (c.toNat - 48)).toNat := (Char.isDigit_iff_toNat.mp hdigit).1
  change (Nat.digitChar (c.toNat - 48)).toNat = c.toNat
  omega

/-- Digits behind the digits of a positive number are written out again. -/
private theorem toDigits_ofDigitChars {digits : List Char} (hdigits : ∀ c ∈ digits, c.isDigit) {n : Nat} (h : 0 < n) :
    Nat.toDigits 10 (Nat.ofDigitChars 10 digits n) = Nat.toDigits 10 n ++ digits := by
  induction digits generalizing n with
  | nil => simp
  | cons c digits ih =>
    obtain ⟨hlt, hc⟩ := digitChar_of_isDigit (hdigits c List.mem_cons_self)
    have happend := Nat.toDigits_append_toDigits (b := 10) (by decide) h hlt
    rw [Nat.toDigits_of_lt_base hlt, hc] at happend
    rw [Nat.ofDigitChars_cons, ih (fun d hd => hdigits d (List.mem_cons_of_mem _ hd)) (by omega), ← happend,
      List.append_assoc, List.singleton_append]

private theorem toDigits_ofDigitChars_of_ne {c : Char} {digits : List Char} (hdigits : ∀ d ∈ c :: digits, d.isDigit)
    (h : c ≠ '0') : Nat.toDigits 10 (Nat.ofDigitChars 10 (c :: digits) 0) = c :: digits := by
  obtain ⟨hlt, hc⟩ := digitChar_of_isDigit (hdigits c List.mem_cons_self)
  have hpos : 0 < c.toNat - '0'.toNat := by
    rw [Nat.pos_iff_ne_zero]
    intro hzero
    rw [hzero] at hc
    exact h hc.symm
  rw [Nat.ofDigitChars_cons, Nat.mul_zero, Nat.zero_add,
    toDigits_ofDigitChars (fun d hd => hdigits d (List.mem_cons_of_mem _ hd)) hpos, Nat.toDigits_of_lt_base hlt, hc,
    List.singleton_append]

/-! ### Arcs -/

private theorem number?_eq_some_iff {digits : List Char} {n : Nat} :
    number? digits = some n ↔
      digits ≠ [] ∧ (∀ c ∈ digits, c.isDigit) ∧ Nat.ofDigitChars 10 digits 0 = n ∧ n < wordLimit := by
  unfold number?
  by_cases hempty : digits = []
  · simp [hempty]
  · by_cases hall : ∀ c ∈ digits, c.isDigit
    · have hcheck : (digits.isEmpty || !digits.all Char.isDigit) = false := by
        rw [List.isEmpty_eq_false_iff.mpr hempty, List.all_eq_true.mpr hall]
        rfl
      rw [hcheck, if_neg Bool.false_ne_true]
      dsimp only
      split
      · next hlt =>
        rw [Option.some.injEq]
        constructor
        · rintro rfl
          exact ⟨hempty, hall, rfl, hlt⟩
        · exact fun h => h.2.2.1
      · next hge =>
        constructor
        · intro h
          cases h
        · rintro ⟨-, -, rfl, hlt⟩
          exact absurd hlt hge
    · have hcheck : (digits.isEmpty || !digits.all Char.isDigit) = true := by
        rw [Bool.or_eq_true, Bool.not_eq_true', Bool.eq_false_iff]
        exact .inr fun h => hall (List.all_eq_true.mp h)
      rw [if_pos hcheck]
      constructor
      · intro h
        cases h
      · exact fun h => absurd h.2.1 hall

private theorem number?_toDigits (n : Nat) : number? (Nat.toDigits 10 n) = if n < wordLimit then some n else none := by
  split
  · next hlt =>
    have hdigits : ∀ c ∈ Nat.toDigits 10 n, c.isDigit := fun c hc =>
      Nat.isDigit_of_mem_toDigits (by decide) (by decide) hc
    exact number?_eq_some_iff.mpr ⟨Nat.toDigits_ne_nil, hdigits, Nat.ofDigitChars_ten_toDigits, hlt⟩
  · next hge =>
    rw [Option.eq_none_iff_forall_ne_some]
    intro m hm
    obtain ⟨-, -, heq, hlt⟩ := number?_eq_some_iff.mp hm
    rw [Nat.ofDigitChars_ten_toDigits] at heq
    omega

private theorem arc?_toDigits (n : Nat) : arc? (Nat.toDigits 10 n) = if n < wordLimit then some n else none := by
  have hplus : ∀ digits, Nat.toDigits 10 n ≠ '+' :: digits := by
    intro digits heq
    have hdigit := Nat.isDigit_of_mem_toDigits (by decide) (by decide) (heq ▸ List.mem_cons_self)
    exact absurd hdigit (by decide)
  rw [arc?.eq_2 _ hplus, number?_toDigits]

/-- The digits without zeros in front; where there are no others, one zero stays. -/
def withoutZeros (digits : List Char) : List Char :=
  match digits.dropWhile (· = '0') with
  | [] => ['0']
  | others => others

/-- The text of an arc without a plus sign and without zeros in front. -/
def plainArc : List Char → List Char
  | '+' :: digits => withoutZeros digits
  | digits => withoutZeros digits

private theorem toDigits_of_number? {digits : List Char} {n : Nat} (h : number? digits = some n) :
    Nat.toDigits 10 n = withoutZeros digits := by
  obtain ⟨-, hdigits, rfl, -⟩ := number?_eq_some_iff.mp h
  clear h
  induction digits with
  | nil => rfl
  | cons c digits ih =>
    by_cases hc : c = '0'
    · -- a zero in front changes neither the number nor the digits that are left
      subst hc
      have hzero : withoutZeros ('0' :: digits) = withoutZeros digits := rfl
      rw [hzero, ← ih fun d hd => hdigits d (List.mem_cons_of_mem _ hd), Nat.ofDigitChars_cons]
      rfl
    · have hkeep : withoutZeros (c :: digits) = c :: digits := by
        simp only [withoutZeros, List.dropWhile_cons, hc, decide_false, Bool.false_eq_true, ↓reduceIte]
      rw [hkeep, toDigits_ofDigitChars_of_ne hdigits hc]

private theorem toDigits_of_arc? {piece : List Char} {n : Nat} (h : arc? piece = some n) :
    Nat.toDigits 10 n = plainArc piece := by
  by_cases hplus : ∃ digits, piece = '+' :: digits
  · obtain ⟨digits, rfl⟩ := hplus
    exact toDigits_of_number? h
  · have hne : ∀ digits, piece ≠ '+' :: digits := fun digits heq => hplus ⟨digits, heq⟩
    rw [arc?.eq_2 piece hne] at h
    rw [plainArc.eq_2 piece hne]
    exact toDigits_of_number? h

/-! ### Texts -/

private theorem mapM_arc?_toDigits (arcs : List Nat) :
    (arcs.map (Nat.toDigits 10)).mapM arc? = if ∀ arc ∈ arcs, arc < wordLimit then some arcs else none := by
  induction arcs with
  | nil => rfl
  | cons arc arcs ih =>
    rw [List.map_cons, List.mapM_cons, arc?_toDigits, ih]
    by_cases harc : arc < wordLimit
    · by_cases hothers : ∀ other ∈ arcs, other < wordLimit
      · have hall : ∀ other ∈ arc :: arcs, other < wordLimit := List.forall_mem_cons.mpr ⟨harc, hothers⟩
        rw [if_pos harc, if_pos hothers, if_pos hall]
        rfl
      · have hnot : ¬∀ other ∈ arc :: arcs, other < wordLimit := fun h => hothers (List.forall_mem_cons.mp h).2
        rw [if_pos harc, if_neg hothers, if_neg hnot]
        rfl
    · have hnot : ¬∀ other ∈ arc :: arcs, other < wordLimit := fun h => harc (List.forall_mem_cons.mp h).1
      rw [if_neg harc, if_neg hnot]
      rfl

private theorem map_toDigits_of_mapM {pieces : List (List Char)} {arcs : List Nat} (h : pieces.mapM arc? = some arcs) :
    arcs.map (Nat.toDigits 10) = pieces.map plainArc := by
  induction pieces generalizing arcs with
  | nil =>
    cases h
    rfl
  | cons piece pieces ih =>
    rw [List.mapM_cons] at h
    obtain ⟨arc, harc, h⟩ := Option.bind_eq_some_iff.mp h
    obtain ⟨others, hothers, h⟩ := Option.bind_eq_some_iff.mp h
    cases h
    rw [List.map_cons, List.map_cons, toDigits_of_arc? harc, ih hothers]

private theorem split_dotted {arcs : List Nat} (h : arcs ≠ []) :
    Text.split '.' (dotted ⟨arcs⟩).toList = arcs.map (Nat.toDigits 10) := by
  rw [dotted, String.toList_ofList]
  exact Text.IsMark.split_join_digits (by decide) (by decide) (by decide) h

/-- What is written for any list of arcs is read back, or refused. -/
theorem ofDotted?_dotted_eq (arcs : List Nat) :
    ofDotted? (dotted ⟨arcs⟩) =
      if isRegistrable arcs ∧ ∀ arc ∈ arcs, arc < wordLimit then some ⟨arcs⟩ else none := by
  by_cases hnil : arcs = []
  · -- the text of no arc has one piece, which is empty
    subst hnil
    decide
  · rw [ofDotted?, split_dotted hnil, mapM_arc?_toDigits]
    by_cases hlt : ∀ arc ∈ arcs, arc < wordLimit
    · rw [if_pos hlt]
      by_cases h : isRegistrable arcs
      · rw [if_pos ⟨h, hlt⟩]
        exact if_pos h
      · rw [if_neg fun hboth => h hboth.1]
        exact if_neg h
    · rw [if_neg hlt, if_neg fun hboth => hlt hboth.2]

theorem ofDotted?_dotted {id : ObjectId} (h : isRegistrable id.arcs) (hlt : ∀ arc ∈ id.arcs, arc < wordLimit) :
    ofDotted? id.dotted = some id := by
  rw [ofDotted?_dotted_eq, if_pos ⟨h, hlt⟩]

theorem dotted_injective : Function.Injective dotted := by
  rintro ⟨a⟩ ⟨b⟩ h
  have hchars := String.ofList_injective h
  exact congrArg ObjectId.mk (Text.IsMark.join_digits_injective (by decide) (by decide) (by decide) hchars)

/-- The text without plus signs and zeros in front of its arcs. -/
def plainText (text : String) : String :=
  String.ofList (Text.join '.' ((Text.split '.' text.toList).map plainArc))

theorem dotted_of_ofDotted? {text : String} {id : ObjectId} (h : ofDotted? text = some id) :
    id.dotted = plainText text := by
  unfold ofDotted? at h
  cases harcs : (Text.split '.' text.toList).mapM arc? with
  | none =>
    rw [harcs] at h
    cases h
  | some arcs =>
    rw [harcs] at h
    dsimp only at h
    split at h
    · cases h
      rw [dotted, plainText, map_toDigits_of_mapM harcs]
    · cases h

theorem eq_iff_plainText_eq {text other : String} {id otherId : ObjectId} (h : ofDotted? text = some id)
    (hother : ofDotted? other = some otherId) : id = otherId ↔ plainText text = plainText other := by
  rw [← dotted_of_ofDotted? h, ← dotted_of_ofDotted? hother]
  exact dotted_injective.eq_iff.symm

/-! ### Names -/

theorem mem_dotted {id : ObjectId} {c : Char} (h : c ∈ id.dotted.toList) : c.isDigit ∨ c = '.' := by
  rw [dotted, String.toList_ofList] at h
  rcases Text.mem_join h with ⟨piece, hpiece, hc⟩ | rfl
  · obtain ⟨arc, -, rfl⟩ := List.mem_map.mp hpiece
    exact .inl (Nat.isDigit_of_mem_toDigits (by decide) (by decide) hc)
  · exact .inr rfl

variable {table : List (List Nat × String)}

theorem nameIn_cases (table : List (List Nat × String)) (id : ObjectId) :
    (id.arcs, id.nameIn table) ∈ table ∨ id.nameIn table = id.dotted := by
  cases h : table.lookup id.arcs with
  | none =>
    right
    rw [nameIn, h]
    rfl
  | some name =>
    left
    obtain ⟨front, back, htable, -⟩ := List.lookup_eq_some_iff.mp h
    rw [nameIn, h, htable]
    exact List.mem_append_right _ List.mem_cons_self

private theorem nameIn_ne_dotted (hwords : ∀ entry ∈ table, entry.2.toList.any fun c => ¬ (c.isDigit ∨ c = '.'))
    {entry : List Nat × String} (h : entry ∈ table) (id : ObjectId) : entry.2 ≠ id.dotted := by
  intro heq
  obtain ⟨c, hc, hletter⟩ := List.any_eq_true.mp (hwords entry h)
  rw [heq] at hc
  exact of_decide_eq_true hletter (mem_dotted hc)

theorem nameIn_injective (hnames : (table.map Prod.snd).Nodup)
    (hwords : ∀ entry ∈ table, entry.2.toList.any fun c => ¬ (c.isDigit ∨ c = '.')) :
    Function.Injective (nameIn table) := by
  rintro ⟨a⟩ ⟨b⟩ h
  rcases nameIn_cases table ⟨a⟩ with ha | ha
  · rcases nameIn_cases table ⟨b⟩ with hb | hb
    · have hentry := List.inj_on_of_nodup_map hnames ha hb h
      exact congrArg (fun entry => ObjectId.mk (Prod.fst entry)) hentry
    · exact absurd (h.trans hb) (nameIn_ne_dotted hwords ha ⟨b⟩)
  · rcases nameIn_cases table ⟨b⟩ with hb | hb
    · exact absurd (h.symm.trans ha) (nameIn_ne_dotted hwords hb ⟨a⟩)
    · rw [ha, hb] at h
      exact dotted_injective h

end CertExtensions.ObjectId
