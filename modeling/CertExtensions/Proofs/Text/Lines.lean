import CertExtensions.Text.Line
import Mathlib.Algebra.Ring.Nat
import Mathlib.Data.List.Basic

/-!
# Lines that are written and read

Lines are written with a line feed behind each (`unlines`). They are cut out again at the line feeds, where one that
holds line feeds itself falls into several (`split_unlines`). To read the lines of a text takes a carriage return at the
end of each away as well (`lines_unlines`), so it gives back exactly the lines that neither hold a line feed nor end in
a carriage return (`lines_unlines_eq_iff`). No line that is read holds a line feed (`not_mem_of_mem_lines`).
-/

namespace CertExtensions.Text

/-! ### Pieces -/

theorem split_append_separator (separator : Char) (front rest : List Char) :
    split separator (front ++ separator :: rest) = split separator front ++ split separator rest := by
  induction front with
  | nil => simp [split]
  | cons c front ih =>
    rw [List.cons_append, split, split]
    split
    · rw [ih, List.cons_append]
    · rw [ih]
      cases h : split separator front with
      | nil => exact absurd h (split_ne_nil separator front)
      | cons piece more => rfl

theorem separator_mem_join {separator : Char} {pieces : List (List Char)} (h : 2 ≤ pieces.length) :
    separator ∈ join separator pieces := by
  match pieces with
  | first :: second :: more => exact List.mem_append_right _ List.mem_cons_self

/-- What stands in front of a first separator and what stands behind it. -/
theorem append_separator_inj {separator : Char} {front other rest more : List Char} (hfront : separator ∉ front)
    (hother : separator ∉ other) (h : front ++ separator :: rest = other ++ separator :: more) :
    front = other ∧ rest = more := by
  have hpieces := congrArg (split separator) h
  rw [split_append_separator, split_append_separator, split_of_not_mem hfront, split_of_not_mem hother,
    List.singleton_append, List.singleton_append, List.cons.injEq] at hpieces
  obtain ⟨rfl, -⟩ := hpieces
  exact ⟨rfl, (List.cons_inj_right separator).mp (List.append_cancel_left h)⟩

private theorem length_split (separator : Char) (text : List Char) :
    (split separator text).length = text.count separator + 1 := by
  induction text with
  | nil => rfl
  | cons c rest ih =>
    rw [split]
    split
    · next h => simp [ih, h]
    · next h =>
      cases hs : split separator rest with
      | nil => exact absurd hs (split_ne_nil separator rest)
      | cons piece more =>
        rw [hs] at ih
        simpa [List.count_cons_of_ne h] using ih

/-! ### Line feeds -/

/-- The lines, each with a line feed behind it. -/
def unlines (lines : List String) : String :=
  String.join (lines.map (· ++ "\n"))

theorem unlines_cons (line : String) (more : List String) : unlines (line :: more) = line ++ "\n" ++ unlines more := by
  rw [unlines, List.map_cons, String.join_cons, unlines]

private theorem toList_unlines_cons (line : String) (more : List String) :
    (unlines (line :: more)).toList = line.toList ++ '\n' :: (unlines more).toList := by
  simp [unlines_cons]

/-- The empty piece is what stands behind the last line feed. -/
theorem split_unlines (lines : List String) :
    split '\n' (unlines lines).toList = lines.flatMap (fun line => split '\n' line.toList) ++ [[]] := by
  induction lines with
  | nil => rfl
  | cons line more ih => rw [toList_unlines_cons, split_append_separator, ih, List.flatMap_cons, List.append_assoc]

private theorem split_unlines_of_not_mem {lines : List String} (h : ∀ line ∈ lines, '\n' ∉ line.toList) :
    split '\n' (unlines lines).toList = lines.map String.toList ++ [[]] := by
  rw [split_unlines, List.append_cancel_right_eq]
  induction lines with
  | nil => rfl
  | cons line more ih =>
    rw [List.flatMap_cons, split_of_not_mem (h line List.mem_cons_self), List.map_cons, List.singleton_append,
      ih fun other hother => h other (List.mem_cons_of_mem _ hother)]

/-- The lines by their line feeds alone: what stands in front of each. -/
def linesByFeed (text : String) : List String :=
  (split '\n' text.toList).dropLast.map String.ofList

theorem linesByFeed_unlines {lines : List String} (h : ∀ line ∈ lines, '\n' ∉ line.toList) :
    linesByFeed (unlines lines) = lines := by
  rw [linesByFeed, split_unlines_of_not_mem h, List.dropLast_concat, List.map_map]
  refine (List.map_congr_left fun line _ => ?_).trans (List.map_id lines)
  exact String.ofList_toList

/-! ### Lines -/

/-- The line without a carriage return at its end. -/
def withoutReturn (line : String) : String :=
  String.ofList (dropReturn line.toList)

theorem withoutReturn_eq_self_iff {line : String} : withoutReturn line = line ↔ line.toList.getLast? ≠ some '\r' := by
  rw [withoutReturn, ← String.toList_inj, String.toList_ofList, dropReturn]
  split
  · next h =>
    have hne : line.toList ≠ [] := by
      intro hnil
      rw [hnil] at h
      cases h
    have hlength : line.toList.dropLast.length = line.toList.length - 1 := List.length_dropLast
    have hpos := List.length_pos_of_ne_nil hne
    simp only [h, ne_eq, not_true_eq_false, iff_false]
    intro heq
    rw [heq] at hlength
    omega
  · next h => simp [h]

private theorem map_withoutReturn_eq_self_iff {lines : List String} :
    lines.map withoutReturn = lines ↔ ∀ line ∈ lines, line.toList.getLast? ≠ some '\r' := by
  have hmap : lines.map withoutReturn = lines ↔ ∀ line ∈ lines, withoutReturn line = line := by
    conv_lhs => rhs; rw [← List.map_id lines]
    exact List.map_inj_left
  rw [hmap]
  exact forall₂_congr fun line _ => withoutReturn_eq_self_iff

theorem withoutReturn_append {front : String} (h : front.toList.getLast? ≠ some '\r') (line : String) :
    withoutReturn (front ++ line) = front ++ withoutReturn line := by
  apply String.toList_inj.mp
  simp only [withoutReturn, String.toList_ofList, String.toList_append, dropReturn]
  cases hline : line.toList with
  | nil => simp [h]
  | cons c rest =>
    have hlast : (front.toList ++ c :: rest).getLast? = (c :: rest).getLast? :=
      List.getLast?_append_of_ne_nil _ (List.cons_ne_nil c rest)
    rw [hlast]
    split
    · exact List.dropLast_append_of_ne_nil (List.cons_ne_nil c rest)
    · rfl

private theorem dropReturns_append_nil {pieces : List (List Char)} :
    dropReturns (pieces ++ [[]]) = pieces.map dropReturn ++ [[]] := by
  induction pieces with
  | nil => rfl
  | cons piece more ih =>
    rw [List.cons_append, List.map_cons, List.cons_append, ← ih]
    cases more <;> rfl

private theorem dropEmptyLast_append_nil {pieces : List (List Char)} : dropEmptyLast (pieces ++ [[]]) = pieces := by
  induction pieces with
  | nil => rfl
  | cons piece more ih =>
    rw [List.cons_append]
    cases more with
    | nil => rfl
    | cons second more => exact congrArg (piece :: ·) ih

theorem lines_unlines (lines : List String) :
    Text.lines (unlines lines) =
      lines.flatMap fun line => (split '\n' line.toList).map fun piece => String.ofList (dropReturn piece) := by
  rw [Text.lines, split_unlines, dropReturns_append_nil, dropEmptyLast_append_nil, List.map_map, List.map_flatMap]
  rfl

theorem lines_unlines_of_not_mem {lines : List String} (h : ∀ line ∈ lines, '\n' ∉ line.toList) :
    Text.lines (unlines lines) = lines.map withoutReturn := by
  rw [Text.lines, split_unlines_of_not_mem h, dropReturns_append_nil, dropEmptyLast_append_nil, List.map_map,
    List.map_map]
  rfl

/-- Each line counts once, and once more for each line feed in it. -/
theorem length_lines_unlines (lines : List String) :
    (Text.lines (unlines lines)).length = lines.length + (lines.map (·.toList.count '\n')).sum := by
  rw [lines_unlines]
  induction lines with
  | nil => rfl
  | cons line more ih =>
    simp only [List.flatMap_cons, List.length_append, List.length_map, length_split, ih, List.length_cons,
      List.map_cons, List.sum_cons]
    omega

theorem length_lines_unlines_eq_iff {lines : List String} :
    (Text.lines (unlines lines)).length = lines.length ↔ ∀ line ∈ lines, '\n' ∉ line.toList := by
  rw [length_lines_unlines, Nat.add_eq_left, List.sum_eq_zero_iff_forall_eq_nat]
  simp [List.count_eq_zero]

/-! ### Lines that are read -/

private theorem mem_of_mem_dropReturn {line : List Char} {c : Char} (h : c ∈ dropReturn line) : c ∈ line := by
  unfold dropReturn at h
  split at h
  · exact List.dropLast_subset line h
  · exact h

private theorem exists_of_mem_dropReturns {pieces : List (List Char)} {line : List Char}
    (h : line ∈ dropReturns pieces) :
    ∃ piece ∈ pieces, ∀ c ∈ line, c ∈ piece := by
  induction pieces with
  | nil => cases h
  | cons piece more ih =>
    cases more with
    | nil =>
      rw [dropReturns, List.mem_singleton] at h
      exact ⟨piece, List.mem_cons_self, by rw [h]; exact fun _ => id⟩
    | cons second more =>
      rcases List.mem_cons.mp h with rfl | h
      · exact ⟨piece, List.mem_cons_self, fun c => mem_of_mem_dropReturn⟩
      · obtain ⟨other, hother, hchars⟩ := ih h
        exact ⟨other, List.mem_cons_of_mem _ hother, hchars⟩

private theorem mem_of_mem_dropEmptyLast {pieces : List (List Char)} {line : List Char}
    (h : line ∈ dropEmptyLast pieces) :
    line ∈ pieces := by
  fun_induction dropEmptyLast pieces with
  | case1 => exact h
  | case2 piece hempty => cases h
  | case3 piece hempty => exact h
  | case4 piece more _ ih => exact (List.mem_cons.mp h).elim (fun heq => by simp [heq]) fun h => by simp [ih h]

theorem not_mem_of_mem_lines {text line : String} (h : line ∈ Text.lines text) : '\n' ∉ line.toList := by
  obtain ⟨chars, hchars, rfl⟩ := List.mem_map.mp h
  obtain ⟨piece, hpiece, hsub⟩ := exists_of_mem_dropReturns (mem_of_mem_dropEmptyLast hchars)
  rw [String.toList_ofList]
  exact fun hfeed => not_mem_of_mem_split hpiece (hsub _ hfeed)

theorem lines_unlines_eq_iff {lines : List String} :
    Text.lines (unlines lines) = lines ↔ ∀ line ∈ lines, '\n' ∉ line.toList ∧ line.toList.getLast? ≠ some '\r' := by
  constructor
  · intro h line hline
    have hfeed : ∀ line ∈ lines, '\n' ∉ line.toList := fun other hother => by
      rw [← h] at hother
      exact not_mem_of_mem_lines hother
    rw [lines_unlines_of_not_mem hfeed] at h
    exact ⟨hfeed line hline, map_withoutReturn_eq_self_iff.mp h line hline⟩
  · intro h
    rw [lines_unlines_of_not_mem fun line hline => (h line hline).1]
    exact map_withoutReturn_eq_self_iff.mpr fun line hline => (h line hline).2

end CertExtensions.Text
