import CertExtensions.GeneralName
import CertExtensions.Proofs.BigEndian
import CertExtensions.Proofs.Text.Digits
import CertExtensions.Proofs.Text.Lines

/-!
# Texts of internet addresses

The text of an address tells its bytes (`address_text_eq_iff`). Which of its forms it has is seen from the marks between
the numbers: a colon where an address has sixteen bytes, and a slash where there is a mask (`mem_text_iff`). The numbers
of four bytes stand between full stops. The groups of sixteen bytes stand between colons, but for a run of zeros
(`hasZeros_longestZeroRun`), which leaves an empty piece; its length is what the other groups lack to eight
(`expand_split_gap`). Only where four bytes are wrapped into sixteen are there full stops as well.
-/

namespace CertExtensions.IpAddress

open Text

variable {c : Char} {a b octets : List UInt8}

/-! ### Four bytes -/

private theorem fourText_eq (octets : List UInt8) :
    fourText octets = join '.' ((octets.map UInt8.toNat).map (Nat.toDigits 10)) := by
  rw [List.map_map]
  rfl

private theorem not_mem_fourText (hc : IsMark c) (hne : c ≠ '.') (octets : List UInt8) : c ∉ fourText octets := by
  rw [fourText_eq]
  exact hc.not_mem_join_digits hne (by decide) (by decide) _

private theorem mem_fourText (h : 2 ≤ octets.length) : '.' ∈ fourText octets :=
  separator_mem_join (by rwa [List.length_map])

private theorem fourText_injective : Function.Injective fourText := by
  intro a b h
  rw [fourText_eq, fourText_eq] at h
  have hnumbers := IsMark.join_digits_injective (by decide) (by decide) (by decide) h
  exact List.map_injective_iff.mpr (fun _ _ => UInt8.toNat_inj.mp) hnumbers

/-! ### Groups -/

private theorem length_groups (octets : List UInt8) : (groups octets).length = octets.length / 2 := by
  fun_induction groups octets with
  | case1 a b rest ih =>
    simp only [List.length_cons, ih]
    omega
  | case2 octets hshort =>
    match octets with
    | [] => rfl
    | [_] => simp
    | a :: b :: rest => exact absurd rfl (hshort a b rest)

/-- Each group gives its two bytes back. -/
private theorem flatMap_groups (h : 2 ∣ octets.length) : (groups octets).flatMap (BigEndian.fixed 2) = octets := by
  fun_induction groups octets with
  | case1 a b rest ih =>
    have hpair : BigEndian.fixed 2 (BigEndian.value [a, b]) = [a, b] := BigEndian.fixed_value [a, b]
    rw [List.flatMap_cons, hpair, ih (by simpa using h)]
    rfl
  | case2 octets hshort =>
    match octets with
    | [] => rfl
    | [_] =>
      rw [List.length_singleton] at h
      omega
    | a :: b :: rest => exact absurd rfl (hshort a b rest)

private theorem not_mem_groupText (hc : IsMark c) (hne : c ≠ ':') (gs : List Nat) : c ∉ groupText gs :=
  hc.not_mem_join_digits hne (by decide) (by decide) gs

private theorem split_groupText {gs : List Nat} (h : gs ≠ []) : split ':' (groupText gs) = gs.map (Nat.toDigits 16) :=
  IsMark.split_join_digits (by decide) (by decide) (by decide) h

private theorem ne_nil_of_mem_map_toDigits {gs : List Nat} {piece : List Char} (h : piece ∈ gs.map (Nat.toDigits 16)) :
    piece ≠ [] := by
  obtain ⟨group, -, rfl⟩ := List.mem_map.mp h
  exact Nat.toDigits_ne_nil

/-! ### Runs of zeros -/

private theorem replicate_zeroRun (gs : List Nat) : List.replicate (zeroRun gs) 0 ++ gs.drop (zeroRun gs) = gs := by
  induction gs with
  | nil => rfl
  | cons g gs ih =>
    by_cases hg : g = 0
    · subst hg
      have hrun : zeroRun (0 :: gs) = zeroRun gs + 1 := rfl
      rw [hrun, List.replicate_succ, List.drop_succ_cons, List.cons_append, ih]
    · have hrun : zeroRun (g :: gs) = 0 := by simp [zeroRun, hg]
      rw [hrun]
      rfl

/-- Whether the groups are zero in the span, which is given by its start and its length. -/
def HasZeros (gs : List Nat) (span : Nat × Nat) : Prop :=
  gs.take span.1 ++ (List.replicate span.2 0 ++ gs.drop (span.1 + span.2)) = gs

private theorem hasZeros_zeroRun (gs : List Nat) (start : Nat) : HasZeros gs (start, zeroRun (gs.drop start)) := by
  have hrun := replicate_zeroRun (gs.drop start)
  rw [List.drop_drop] at hrun
  rw [HasZeros, hrun, List.take_append_drop]

theorem hasZeros_longestZeroRun (gs : List Nat) : HasZeros gs (longestZeroRun gs) := by
  refine List.foldlRecOn _ _ rfl fun best hbest start _ => ?_
  dsimp only
  split
  · exact hasZeros_zeroRun gs start
  · exact hbest

/-! ### Sixteen bytes -/

/-- The three forms of an address of sixteen bytes. -/
private theorem sixteenText_cases (octets : List UInt8) :
    (isMapped octets ∧ sixteenText octets = "::ffff:".toList ++ fourText (octets.drop 12)) ∨
      (isMapped octets = false ∧ (sixteenText octets = groupText (groups octets) ∨
        ∃ front run back, front ++ (List.replicate run 0 ++ back) = groups octets ∧
          sixteenText octets = groupText front ++ ':' :: ':' :: groupText back)) := by
  cases hmapped : isMapped octets with
  | true =>
    refine .inl ⟨rfl, ?_⟩
    rw [sixteenText, hmapped, if_pos rfl]
  | false =>
    refine .inr ⟨rfl, ?_⟩
    rw [sixteenText, hmapped, if_neg Bool.false_ne_true]
    dsimp only
    split
    · exact .inl rfl
    · exact .inr ⟨_, _, _, hasZeros_longestZeroRun (groups octets), rfl⟩

/-- The numbers of all groups from the pieces of a text between its colons: an empty piece stands for the zeros that the
others lack to eight. -/
def expand (pieces : List (List Char)) : List (List Char) :=
  if [] ∈ pieces then
    let front := pieces.takeWhile (· ≠ [])
    let back := (pieces.reverse.takeWhile (· ≠ [])).reverse
    front ++ (List.replicate (8 - front.length - back.length) ['0'] ++ back)
  else pieces

private theorem expand_split_groupText {gs : List Nat} (h : gs ≠ []) :
    expand (split ':' (groupText gs)) = gs.map (Nat.toDigits 16) := by
  rw [split_groupText h]
  exact if_neg fun hnil => ne_nil_of_mem_map_toDigits hnil rfl

/-- What stands in front of an empty piece, from the left or from the right. -/
private theorem takeWhile_split_groupText (gs : List Nat) (rest : List (List Char)) :
    (split ':' (groupText gs) ++ [] :: rest).takeWhile (· ≠ []) = gs.map (Nat.toDigits 16) ∧
      ((split ':' (groupText gs)).reverse ++ [] :: rest).takeWhile (· ≠ []) = (gs.map (Nat.toDigits 16)).reverse := by
  by_cases hgs : gs = []
  · subst hgs
    exact ⟨rfl, rfl⟩
  · have hall : ∀ piece ∈ gs.map (Nat.toDigits 16), decide (piece ≠ []) = true := fun piece hpiece =>
      decide_eq_true (ne_nil_of_mem_map_toDigits hpiece)
    have hreverse : ∀ piece ∈ (gs.map (Nat.toDigits 16)).reverse, decide (piece ≠ []) = true := fun piece hpiece =>
      hall piece (List.mem_reverse.mp hpiece)
    rw [split_groupText hgs, List.takeWhile_append_of_pos hall, List.takeWhile_append_of_pos hreverse]
    simp

/-- Two colons in a row are read as the zeros that have been left out. -/
theorem expand_split_gap {front back : List Nat} {run : Nat} (h : front.length + run + back.length = 8) :
    expand (split ':' (groupText front ++ ':' :: ':' :: groupText back)) =
      (front ++ (List.replicate run 0 ++ back)).map (Nat.toDigits 16) := by
  have hsplit : split ':' (groupText front ++ ':' :: ':' :: groupText back) =
      split ':' (groupText front) ++ [] :: split ':' (groupText back) := by
    rw [split_append_separator]
    rfl
  have hback : (split ':' (groupText front) ++ [] :: split ':' (groupText back)).reverse =
      (split ':' (groupText back)).reverse ++ [] :: (split ':' (groupText front)).reverse := by
    rw [List.reverse_append, List.reverse_cons, List.append_assoc, List.singleton_append]
  have hmissing : 8 - front.length - back.length = run := by omega
  have hzeros : List.replicate run ['0'] = (List.replicate run 0).map (Nat.toDigits 16) := by
    rw [List.map_replicate]
    rfl
  rw [hsplit, expand, if_pos (List.mem_append_right _ List.mem_cons_self), hback, (takeWhile_split_groupText ..).1,
    (takeWhile_split_groupText ..).2, List.reverse_reverse]
  dsimp only
  rw [List.length_map, List.length_map, hmissing, hzeros, List.map_append, List.map_append]

private theorem expand_sixteenText (h : octets.length = 16) (hmapped : isMapped octets = false) :
    expand (split ':' (sixteenText octets)) = (groups octets).map (Nat.toDigits 16) := by
  have hlength := length_groups octets
  obtain ⟨hother, -⟩ | ⟨-, htext | ⟨front, run, back, hgroups, htext⟩⟩ := sixteenText_cases octets
  · rw [hmapped] at hother
    cases hother
  · rw [htext]
    refine expand_split_groupText fun hnil => ?_
    rw [hnil, List.length_nil] at hlength
    omega
  · rw [← hgroups, List.length_append, List.length_append, List.length_replicate] at hlength
    rw [htext, expand_split_gap (show front.length + run + back.length = 8 by omega), hgroups]

private theorem not_mem_sixteenText (hc : IsMark c) (hcolon : c ≠ ':') (hdot : c ≠ '.') (octets : List UInt8) :
    c ∉ sixteenText octets := by
  have hgroups := not_mem_groupText hc hcolon
  obtain ⟨-, htext⟩ | ⟨-, htext | ⟨front, run, back, -, htext⟩⟩ := sixteenText_cases octets
  · have hf : c ≠ 'f' := hc 15
    have hfront : c ∉ "::ffff:".toList := by simp [hcolon, hf]
    rw [htext, List.mem_append, not_or]
    exact ⟨hfront, not_mem_fourText hc hdot _⟩
  · rw [htext]
    exact hgroups _
  · simp [htext, hgroups, hcolon]

/-- Only four bytes that are wrapped have full stops between them. -/
private theorem dot_mem_sixteenText_iff (h : octets.length = 16) : '.' ∈ sixteenText octets ↔ isMapped octets := by
  have hgroups := not_mem_groupText (show IsMark '.' by decide) (by decide)
  obtain ⟨hmapped, htext⟩ | ⟨hmapped, htext | ⟨front, run, back, -, htext⟩⟩ := sixteenText_cases octets
  · rw [htext]
    refine iff_of_true (List.mem_append_right _ (mem_fourText ?_)) hmapped
    rw [List.length_drop]
    omega
  · simp [htext, hmapped, hgroups]
  · simp [htext, hmapped, hgroups]

private theorem colon_mem_sixteenText (h : octets.length = 16) : ':' ∈ sixteenText octets := by
  obtain ⟨-, htext⟩ | ⟨-, htext | ⟨front, run, back, -, htext⟩⟩ := sixteenText_cases octets
  · simp [htext]
  · rw [htext]
    refine separator_mem_join ?_
    rw [List.length_map, length_groups]
    omega
  · simp [htext]

private theorem sixteenText_inj (ha : a.length = 16) (hb : b.length = 16) (h : sixteenText a = sixteenText b) :
    a = b := by
  have hsame : isMapped a = isMapped b := by
    rw [Bool.eq_iff_iff, ← dot_mem_sixteenText_iff ha, ← dot_mem_sixteenText_iff hb, h]
  cases hmapped : isMapped a with
  | true =>
    rw [hmapped] at hsame
    have hfront := (beq_iff_eq.mp hmapped).trans (beq_iff_eq.mp hsame.symm).symm
    have hback : a.drop 12 = b.drop 12 := by
      rw [sixteenText, sixteenText, hmapped, ← hsame] at h
      exact fourText_injective (List.append_cancel_left h)
    rw [← List.take_append_drop 12 a, hfront, hback, List.take_append_drop]
  | false =>
    have hgroups : (groups a).map (Nat.toDigits 16) = (groups b).map (Nat.toDigits 16) := by
      rw [← expand_sixteenText ha hmapped, h, expand_sixteenText hb (hsame.symm.trans hmapped)]
    have hnumbers := List.map_injective_iff.mpr (toDigits_injective (by decide) (by decide)) hgroups
    have heven : 2 ∣ a.length := by omega
    rw [← flatMap_groups heven, hnumbers, flatMap_groups (by omega)]

/-! ### Masks -/

/-- Where an address is told by its text, an address with a mask is told by the two texts around the slash. -/
private theorem masked_inj {write : List UInt8 → List Char} {n : Nat} (hslash : ∀ octets, '/' ∉ write octets)
    (hinj : ∀ a b, a.length = n → b.length = n → write a = write b → a = b) (ha : a.length = n + n)
    (hb : b.length = n + n)
    (h : write (a.take n) ++ '/' :: write (a.drop n) = write (b.take n) ++ '/' :: write (b.drop n)) : a = b := by
  obtain ⟨hfront, hback⟩ := append_separator_inj (hslash _) (hslash _) h
  have htake : a.take n = b.take n := by
    refine hinj _ _ ?_ ?_ hfront
    · rw [List.length_take]
      omega
    · rw [List.length_take]
      omega
  have hdrop : a.drop n = b.drop n := by
    refine hinj _ _ ?_ ?_ hback
    · rw [List.length_drop]
      omega
    · rw [List.length_drop]
      omega
  rw [← List.take_append_drop n a, htake, hdrop, List.take_append_drop]

/-! ### All forms -/

private theorem toList_text_four (h : octets.length = 4) : (text octets).toList = fourText octets := by
  simp only [text, h, String.toList_ofList]

private theorem toList_text_eight (h : octets.length = 8) :
    (text octets).toList = fourText (octets.take 4) ++ '/' :: fourText (octets.drop 4) := by
  simp only [text, h, String.toList_ofList]

private theorem toList_text_sixteen (h : octets.length = 16) : (text octets).toList = sixteenText octets := by
  simp only [text, h, String.toList_ofList]

private theorem toList_text_thirtyTwo (h : octets.length = 32) :
    (text octets).toList = sixteenText (octets.take 16) ++ '/' :: sixteenText (octets.drop 16) := by
  simp only [text, h, String.toList_ofList]

/-- The lengths of addresses without and with a mask. -/
def IsAddress (octets : List UInt8) : Prop :=
  octets.length ∈ [4, 8, 16, 32]

instance : DecidablePred IsAddress := fun octets =>
  inferInstanceAs (Decidable (octets.length ∈ [4, 8, 16, 32]))

private theorem IsAddress.length_cases (h : IsAddress octets) :
    octets.length = 4 ∨ octets.length = 8 ∨ octets.length = 16 ∨ octets.length = 32 := by
  simpa [IsAddress] using h

/-- The marks between the numbers tell how many bytes there are. -/
theorem mem_text_iff (h : IsAddress octets) :
    ('/' ∈ (text octets).toList ↔ octets.length = 8 ∨ octets.length = 32) ∧
      (':' ∈ (text octets).toList ↔ octets.length = 16 ∨ octets.length = 32) := by
  have hslashFour := not_mem_fourText (show IsMark '/' by decide) (by decide)
  have hcolonFour := not_mem_fourText (show IsMark ':' by decide) (by decide)
  have hslashSixteen := not_mem_sixteenText (show IsMark '/' by decide) (by decide) (by decide)
  rcases h.length_cases with hlength | hlength | hlength | hlength
  · rw [toList_text_four hlength, hlength]
    simp [hslashFour, hcolonFour]
  · rw [toList_text_eight hlength, hlength]
    simp [hcolonFour]
  · rw [toList_text_sixteen hlength, hlength]
    simp [hslashSixteen, colon_mem_sixteenText hlength]
  · have hfront : ':' ∈ sixteenText (octets.take 16) := colon_mem_sixteenText (by rw [List.length_take]; omega)
    rw [toList_text_thirtyTwo hlength, hlength]
    simp [hfront]

private theorem length_eq_of_text_eq (ha : IsAddress a) (hb : IsAddress b) (h : text a = text b) :
    a.length = b.length := by
  obtain ⟨hslashA, hcolonA⟩ := mem_text_iff ha
  obtain ⟨hslashB, hcolonB⟩ := mem_text_iff hb
  rw [h, hslashB] at hslashA
  rw [h, hcolonB] at hcolonA
  rcases ha.length_cases with hlength | hlength | hlength | hlength
  all_goals
    rcases hb.length_cases with hother | hother | hother | hother
    all_goals omega

private theorem text_inj (ha : IsAddress a) (hb : IsAddress b) (h : text a = text b) : a = b := by
  have hsame := length_eq_of_text_eq ha hb h
  have hchars := congrArg String.toList h
  rcases ha.length_cases with hlength | hlength | hlength | hlength
  all_goals have hother := hsame.symm.trans hlength
  · rw [toList_text_four hlength, toList_text_four hother] at hchars
    exact fourText_injective hchars
  · rw [toList_text_eight hlength, toList_text_eight hother] at hchars
    exact masked_inj (not_mem_fourText (by decide) (by decide)) (fun _ _ _ _ h => fourText_injective h) hlength hother
      hchars
  · rw [toList_text_sixteen hlength, toList_text_sixteen hother] at hchars
    exact sixteenText_inj hlength hother hchars
  · rw [toList_text_thirtyTwo hlength, toList_text_thirtyTwo hother] at hchars
    exact masked_inj (not_mem_sixteenText (by decide) (by decide) (by decide)) (fun _ _ => sixteenText_inj) hlength
      hother hchars

/-- Addresses of four and of sixteen bytes, each without and with a mask, are told apart by their texts, and so they are
where they are shown as names. -/
theorem address_text_eq_iff (ha : IsAddress a) (hb : IsAddress b) :
    (text a = text b ↔ a = b) ∧
      ∀ linkUris, (GeneralName.ip a).phrase.layOut linkUris = (GeneralName.ip b).phrase.layOut linkUris ↔ a = b := by
  refine ⟨⟨text_inj ha hb, congrArg text⟩, fun linkUris => ⟨fun h => ?_, ?_⟩⟩
  · exact text_inj ha hb ((String.append_right_inj "IP Address: ").mp h)
  · rintro rfl
    rfl

/-- Four bytes, and the same four bytes wrapped into sixteen. -/
theorem address_text_eq_iff_mapped :
    let four : List UInt8 := [192, 0, 2, 1]
    let mapped := List.replicate 10 0 ++ [255, 255] ++ four
    IsAddress four ∧ IsAddress mapped ∧ text four ≠ text mapped := by
  intro four mapped
  have hfour : IsAddress four := by decide
  have hmapped : IsAddress mapped := by decide
  exact ⟨hfour, hmapped, mt (address_text_eq_iff hfour hmapped).1.mp (by decide)⟩

end CertExtensions.IpAddress
