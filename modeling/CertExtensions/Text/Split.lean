/-!
# Splitting and joining

Pieces of a text between separators. Main statements: joining the pieces gives the text back (`join_split`), no piece
holds the separator (`not_mem_of_mem_split`), and pieces without the separator are found again (`split_join`).
-/

namespace CertExtensions.Text

/-- The pieces between separators: one more than there are separators. -/
def split (separator : Char) : List Char → List (List Char)
  | [] => [[]]
  | c :: rest =>
    if c = separator then [] :: split separator rest
    else
      match split separator rest with
      | [] => [[c]]
      | piece :: more => (c :: piece) :: more

/-- The pieces with one separator between each two. -/
def join (separator : Char) : List (List Char) → List Char
  | [] => []
  | [piece] => piece
  | piece :: more => piece ++ separator :: join separator more

theorem split_ne_nil (separator : Char) (text : List Char) : split separator text ≠ [] := by
  cases text with
  | nil => simp [split]
  | cons c rest =>
    by_cases h : c = separator
    · simp [split, h]
    · simp only [split, h, ↓reduceIte]
      split <;> simp

@[simp] theorem join_cons_of_ne_nil (separator : Char) (piece : List Char) {more : List (List Char)}
    (h : more ≠ []) : join separator (piece :: more) = piece ++ separator :: join separator more := by
  cases more with
  | nil => exact absurd rfl h
  | cons => rfl

theorem join_split (separator : Char) (text : List Char) : join separator (split separator text) = text := by
  induction text with
  | nil => rfl
  | cons c rest ih =>
    simp only [split]
    split
    · next h => simp [join_cons_of_ne_nil _ _ (split_ne_nil separator rest), ih, h]
    · cases hs : split separator rest with
      | nil => exact absurd hs (split_ne_nil separator rest)
      | cons piece more =>
        rw [hs] at ih
        cases more with
        | nil => simpa [join] using ih
        | cons second more => simpa [join] using ih

theorem not_mem_of_mem_split {separator : Char} {text piece : List Char}
    (h : piece ∈ split separator text) : separator ∉ piece := by
  induction text generalizing piece with
  | nil => simp_all [split]
  | cons c rest ih =>
    simp only [split] at h
    split at h
    · rcases List.mem_cons.mp h with rfl | h
      · simp
      · exact ih h
    · next hc =>
      cases hs : split separator rest with
      | nil => exact absurd hs (split_ne_nil separator rest)
      | cons first more =>
        simp only [hs, List.mem_cons] at h
        rcases h with rfl | h
        · have hfirst : separator ∉ first := ih (by simp [hs])
          simp [hfirst, Ne.symm hc]
        · exact ih (by simp [hs, h])

theorem mem_join {separator c : Char} {pieces : List (List Char)} (h : c ∈ join separator pieces) :
    (∃ piece ∈ pieces, c ∈ piece) ∨ c = separator := by
  induction pieces with
  | nil => cases h
  | cons piece more ih =>
    cases more with
    | nil => exact .inl ⟨piece, List.mem_cons_self, h⟩
    | cons second more =>
      rw [join_cons_of_ne_nil _ _ (List.cons_ne_nil _ _), List.mem_append, List.mem_cons] at h
      rcases h with h | rfl | h
      · exact .inl ⟨piece, List.mem_cons_self, h⟩
      · exact .inr rfl
      · rcases ih h with ⟨other, hother, hc⟩ | heq
        · exact .inl ⟨other, List.mem_cons_of_mem _ hother, hc⟩
        · exact .inr heq

theorem mem_join_iff_of_ne {separator c : Char} (h : c ≠ separator) {pieces : List (List Char)} :
    c ∈ join separator pieces ↔ ∃ piece ∈ pieces, c ∈ piece := by
  constructor
  · exact fun hc => (mem_join hc).resolve_right h
  · rintro ⟨piece, hpiece, hc⟩
    induction pieces with
    | nil => cases hpiece
    | cons first more ih =>
      cases more with
      | nil =>
        rw [List.mem_singleton.mp hpiece] at hc
        exact hc
      | cons second more =>
        rw [join_cons_of_ne_nil _ _ (List.cons_ne_nil _ _), List.mem_append, List.mem_cons]
        rcases List.mem_cons.mp hpiece with rfl | hmore
        · exact .inl hc
        · exact .inr (.inr (ih hmore))

theorem split_of_not_mem {separator : Char} {piece : List Char} (h : separator ∉ piece) :
    split separator piece = [piece] := by
  induction piece with
  | nil => rfl
  | cons c piece ih =>
    rw [List.mem_cons, not_or] at h
    rw [split, if_neg (Ne.symm h.1), ih h.2]

theorem split_append {separator : Char} {piece : List Char} (h : separator ∉ piece) (rest : List Char) :
    split separator (piece ++ separator :: rest) = piece :: split separator rest := by
  induction piece with
  | nil => simp [split]
  | cons c piece ih =>
    rw [List.mem_cons, not_or] at h
    rw [List.cons_append, split, if_neg (Ne.symm h.1), ih h.2]

theorem split_join {separator : Char} {pieces : List (List Char)} (hne : pieces ≠ [])
    (h : ∀ piece ∈ pieces, separator ∉ piece) : split separator (join separator pieces) = pieces := by
  induction pieces with
  | nil => exact absurd rfl hne
  | cons piece more ih =>
    have hpiece := h piece List.mem_cons_self
    cases more with
    | nil => exact split_of_not_mem hpiece
    | cons second more =>
      have hmore := ih (List.cons_ne_nil _ _) fun other hother => h other (List.mem_cons_of_mem _ hother)
      rw [join_cons_of_ne_nil _ _ (List.cons_ne_nil _ _), split_append hpiece, hmore]

end CertExtensions.Text
