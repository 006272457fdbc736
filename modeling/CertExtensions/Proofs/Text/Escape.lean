import CertExtensions.Text.Split

/-!
# Escapes

A backslash takes the meaning from the character behind it. `unescape` leaves the backslashes out, and `splitUnescaped`
cuts a text at the separators that have none in front of them. Where no separator stands unescaped in the pieces, they
are found again after they have been joined (`splitUnescaped_join`), so the joined text tells the pieces
(`join_eq_join_iff`).
-/

namespace CertExtensions.Text

/-- The text that is meant: a character behind a backslash stands for itself. -/
def unescape : List Char → List Char
  | [] => []
  | '\\' :: c :: rest => c :: unescape rest
  | c :: rest => c :: unescape rest

theorem unescape_cons {c : Char} (h : c ≠ '\\') (rest : List Char) : unescape (c :: rest) = c :: unescape rest := by
  rw [unescape.eq_3]
  intro d more heq
  exact absurd heq h

/-! ### Separators -/

/-- Whether every backslash has a character behind it, and every separator a backslash in front. -/
inductive Guarded (separator : Char) : List Char → Prop where
  | nil : Guarded separator []
  | plain {c : Char} {rest : List Char} : c ≠ '\\' → c ≠ separator → Guarded separator rest →
    Guarded separator (c :: rest)
  | escaped (c : Char) {rest : List Char} : Guarded separator rest → Guarded separator ('\\' :: c :: rest)

namespace Guarded

variable {separator : Char} {front back : List Char}

theorem append (hfront : Guarded separator front) (hback : Guarded separator back) :
    Guarded separator (front ++ back) := by
  induction hfront with
  | nil => exact hback
  | plain hslash hseparator _ ih => exact .plain hslash hseparator ih
  | escaped c _ ih => exact .escaped c ih

theorem of_forall (h : ∀ c ∈ front, c ≠ '\\' ∧ c ≠ separator) : Guarded separator front := by
  induction front with
  | nil => exact .nil
  | cons c front ih =>
    obtain ⟨hslash, hseparator⟩ := h c List.mem_cons_self
    exact .plain hslash hseparator (ih fun d hd => h d (List.mem_cons_of_mem _ hd))

end Guarded

/-- Puts characters in front of the first piece. -/
def extendFirst (front : List Char) : List (List Char) → List (List Char)
  | [] => [front]
  | piece :: more => (front ++ piece) :: more

/-- The pieces between the separators that no backslash stands in front of. -/
def splitUnescaped (separator : Char) : List Char → List (List Char)
  | [] => [[]]
  | '\\' :: c :: rest => extendFirst ['\\', c] (splitUnescaped separator rest)
  | c :: rest =>
    if c = separator then [] :: splitUnescaped separator rest
    else extendFirst [c] (splitUnescaped separator rest)

variable {separator : Char} {piece : List Char}

private theorem splitUnescaped_cons {c : Char} (h : c ≠ '\\') (rest : List Char) :
    splitUnescaped separator (c :: rest) =
      if c = separator then [] :: splitUnescaped separator rest
      else extendFirst [c] (splitUnescaped separator rest) := by
  rw [splitUnescaped.eq_3]
  intro d more heq
  exact absurd heq h

private theorem splitUnescaped_of_guarded (h : Guarded separator piece) : splitUnescaped separator piece = [piece] := by
  induction h with
  | nil => rfl
  | plain hslash hseparator _ ih =>
    rw [splitUnescaped_cons hslash, if_neg hseparator, ih]
    rfl
  | escaped c _ ih =>
    rw [splitUnescaped, ih]
    rfl

private theorem splitUnescaped_append (hseparator : separator ≠ '\\') (h : Guarded separator piece) (rest : List Char) :
    splitUnescaped separator (piece ++ separator :: rest) = piece :: splitUnescaped separator rest := by
  induction h with
  | nil => rw [List.nil_append, splitUnescaped_cons hseparator, if_pos rfl]
  | plain hslash hne _ ih =>
    rw [List.cons_append, splitUnescaped_cons hslash, if_neg hne, ih]
    rfl
  | escaped c _ ih =>
    rw [List.cons_append, List.cons_append, splitUnescaped, ih]
    rfl

theorem splitUnescaped_join (hseparator : separator ≠ '\\') {pieces : List (List Char)} (hne : pieces ≠ [])
    (h : ∀ piece ∈ pieces, Guarded separator piece) : splitUnescaped separator (join separator pieces) = pieces := by
  induction pieces with
  | nil => exact absurd rfl hne
  | cons piece more ih =>
    have hpiece := h piece List.mem_cons_self
    cases more with
    | nil => exact splitUnescaped_of_guarded hpiece
    | cons second more =>
      have hmore := ih (List.cons_ne_nil _ _) fun other hother => h other (List.mem_cons_of_mem _ hother)
      rw [join_cons_of_ne_nil _ _ (List.cons_ne_nil _ _), splitUnescaped_append hseparator hpiece, hmore]

/-- No pieces at all give the empty text, as one empty piece does. -/
theorem join_eq_nil_iff {pieces : List (List Char)} (h : ∀ piece ∈ pieces, piece ≠ []) :
    join separator pieces = [] ↔ pieces = [] := by
  constructor
  · intro hjoin
    cases pieces with
    | nil => rfl
    | cons piece more =>
      cases more with
      | nil => exact absurd hjoin (h piece List.mem_cons_self)
      | cons second more => simp [join] at hjoin
  · rintro rfl
    rfl

theorem join_eq_join_iff (hseparator : separator ≠ '\\') {pieces others : List (List Char)}
    (h : ∀ piece ∈ pieces, piece ≠ [] ∧ Guarded separator piece)
    (hothers : ∀ piece ∈ others, piece ≠ [] ∧ Guarded separator piece) :
    join separator pieces = join separator others ↔ pieces = others := by
  constructor
  · intro hjoin
    have hempty : join separator pieces = [] ↔ pieces = [] := join_eq_nil_iff fun piece hpiece => (h piece hpiece).1
    have hempty' : join separator others = [] ↔ others = [] :=
      join_eq_nil_iff fun piece hpiece => (hothers piece hpiece).1
    by_cases hne : pieces = []
    · rw [hne, eq_comm, ← hempty', ← hjoin, hempty]
      exact hne
    · have hne' : others ≠ [] := by
        intro heq
        rw [← hempty', ← hjoin] at heq
        exact hne (hempty.mp heq)
      rw [← splitUnescaped_join hseparator hne fun piece hpiece => (h piece hpiece).2, hjoin,
        splitUnescaped_join hseparator hne' fun piece hpiece => (hothers piece hpiece).2]
  · rintro rfl
    rfl

theorem guarded_join {other : Char} {pieces : List (List Char)} (hother : other ≠ '\\') (hne : other ≠ separator)
    (h : ∀ piece ∈ pieces, Guarded separator piece) : Guarded separator (join other pieces) := by
  induction pieces with
  | nil => exact .nil
  | cons piece more ih =>
    have hpiece := h piece List.mem_cons_self
    have hmore := ih fun next hnext => h next (List.mem_cons_of_mem _ hnext)
    cases more with
    | nil => exact hpiece
    | cons second more => exact hpiece.append (.plain hother hne hmore)

end CertExtensions.Text
