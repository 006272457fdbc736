import CertExtensions.Proofs.Hex.Numeral
import CertExtensions.Proofs.Utf16

/-!
# Reading dumps

A line of a dump has its row of bytes twice: as pairs of digits in the first 23 columns, and behind a gap of three as
one character each, of which none is a control character (`ShowsRow`). So no byte breaks a line or shifts a column, and
the pairs of all lines are the bytes: a dump is read back, and different bytes have different dumps (`dump_readable`).
-/

namespace CertExtensions.Hex

open Text (split join)

/-! ### Readers -/

/-- The byte of two upper case digits. -/
def byteOfPair? : List Char → Option UInt8
  | [high, low] =>
    if high ∈ digitSigns ∧ low ∈ digitSigns then some (UInt8.ofNat (base16 [high, low])) else none
  | _ => none

/-- The bytes of pairs of digits with any blanks between them. -/
def readPairs? (columns : List Char) : Option (List UInt8) :=
  ((split ' ' columns).filter (· ≠ [])).mapM byteOfPair?

/-- The bytes that the first 23 columns of the lines show. -/
def readDump? (text : String) : Option (List UInt8) :=
  ((split '\n' text.toList).mapM fun line => readPairs? (line.take 23)).map List.flatten

/-- The characters of the two blocks of control characters, and the one in front of the second block. -/
def IsControl (c : Char) : Prop :=
  c.toNat < 32 ∨ 127 ≤ c.toNat ∧ c.toNat < 160

instance (c : Char) : Decidable (IsControl c) :=
  inferInstanceAs (Decidable (_ ∨ _))

/-- Whether the line is one of a dump, for a row of bytes: pairs of digits with a blank between each two, filled up with
blanks to 23 columns, a gap of three columns and a character for each byte. -/
structure ShowsRow (line : List Char) (row : List UInt8) : Prop where
  columns : line.take 23 = join ' ' (row.map pair) ++ List.replicate (24 - 3 * row.length) ' '
  width : (line.take 23).length = 23
  pairs : readPairs? (line.take 23) = some row
  characters : line.drop 23 = ' ' :: ' ' :: ' ' ::
    row.map fun b => if IsControl (Char.ofNat b.toNat) then '.' else Char.ofNat b.toNat
  unbroken : '\n' ∉ line

/-! ### Rows -/

variable {bytes row : List UInt8}

private theorem rows_of_ne_nil (h : bytes ≠ []) : rows bytes = bytes.take 8 :: rows (bytes.drop 8) := by
  rcases bytes with _ | ⟨a, _ | ⟨b, _ | ⟨c, _ | ⟨d, _ | ⟨e, _ | ⟨f, _ | ⟨g, _ | ⟨last, rest⟩⟩⟩⟩⟩⟩⟩⟩
  · exact absurd rfl h
  all_goals rfl

/-- The rows are the bytes from each eighth one on. -/
private theorem rows_eq (bytes : List UInt8) :
    rows bytes = (List.range ((bytes.length + 7) / 8)).map fun i => (bytes.drop (8 * i)).take 8 := by
  induction hlength : bytes.length using Nat.strongRecOn generalizing bytes with
  | ind n ih =>
    by_cases hnil : bytes = []
    · subst hnil
      subst hlength
      rfl
    · have hpos := List.length_pos_iff.mpr hnil
      have hcount : (n + 7) / 8 = (n - 8 + 7) / 8 + 1 := by omega
      rw [rows_of_ne_nil hnil, ih (n - 8) (by omega) (bytes.drop 8) (by simp [hlength]), hcount,
        List.range_succ_eq_map, List.map_cons, List.map_map]
      simp only [List.drop_drop, Nat.mul_zero, List.drop_zero, List.cons.injEq, true_and]
      refine List.map_congr_left fun i _ => ?_
      have hnext : 8 + 8 * i = 8 * (i + 1) := by omega
      simp [hnext]

private theorem flatten_rows (bytes : List UInt8) : (rows bytes).flatten = bytes := by
  fun_induction rows bytes with
  | case1 => rfl
  | case2 a b c d e f g last rest ih => simp [ih]
  | case3 => simp

private theorem ne_nil_and_length_le_of_mem_rows (h : row ∈ rows bytes) : row ≠ [] ∧ row.length ≤ 8 := by
  rw [rows_eq] at h
  obtain ⟨i, hi, rfl⟩ := List.mem_map.mp h
  have hi := List.mem_range.mp hi
  rw [← List.length_pos_iff, List.length_take, List.length_drop]
  omega

/-! ### Pairs -/

private theorem byteOfPair?_pair (b : UInt8) : byteOfPair? (pair b) = some b := by
  obtain ⟨hhigh, hlow⟩ := toNat_halves_lt b
  have hnumber : base16 [digit (b.toNat / 16), digit (b.toNat % 16)] = b.toNat := base16_pair b
  simp [pair, byteOfPair?, digit_mem_digitSigns hhigh, digit_mem_digitSigns hlow, hnumber]

private theorem mapM_byteOfPair? (row : List UInt8) : (row.map pair).mapM byteOfPair? = some row := by
  induction row with
  | nil => rfl
  | cons b row ih => simp [byteOfPair?_pair, ih]

private theorem blank_not_mem_pair (b : UInt8) : ' ' ∉ pair b := by
  intro h
  have hdigits : ' ' ∈ digits [b] := by simpa [digits] using h
  exact ne_blank_of_mem_digitSigns (mem_digitSigns_of_mem_digits hdigits) rfl

private theorem length_join_pairs (h : row ≠ []) : (join ' ' (row.map pair)).length = 3 * row.length - 1 := by
  induction row with
  | nil => exact absurd rfl h
  | cons b row ih =>
    have hpair : (pair b).length = 2 := rfl
    by_cases hnil : row = []
    · subst hnil
      rfl
    · have hmap : row.map pair ≠ [] := by simpa using hnil
      have hpos := List.length_pos_iff.mpr hnil
      rw [List.map_cons, Text.join_cons_of_ne_nil _ _ hmap, List.length_append, List.length_cons, ih hnil, hpair,
        List.length_cons]
      omega

private theorem join_append_singleton {separator : Char} {pieces : List (List Char)} (h : pieces ≠ [])
    (piece : List Char) :
    join separator (pieces ++ [piece]) = join separator pieces ++ separator :: piece := by
  induction pieces with
  | nil => exact absurd rfl h
  | cons first more ih =>
    by_cases hmore : more = []
    · subst hmore
      rfl
    · rw [List.cons_append, Text.join_cons_of_ne_nil _ _ (by simp), ih hmore, Text.join_cons_of_ne_nil _ _ hmore,
        List.append_assoc, List.cons_append]

/-- Blanks behind pieces are between pieces without a character. -/
private theorem join_append_replicate {pieces : List (List Char)} (h : pieces ≠ []) (n : Nat) :
    join ' ' (pieces ++ List.replicate n []) = join ' ' pieces ++ List.replicate n ' ' := by
  induction n with
  | zero => simp
  | succ n ih =>
    have hne : pieces ++ List.replicate n [] ≠ [] := by simp [h]
    rw [List.replicate_succ', ← List.append_assoc, join_append_singleton hne, ih, List.replicate_succ',
      List.append_assoc]

private theorem readPairs?_columns (h : row ≠ []) (n : Nat) :
    readPairs? (join ' ' (row.map pair) ++ List.replicate n ' ') = some row := by
  have hne : row.map pair ≠ [] := by simpa using h
  have hpieces : ∀ piece ∈ row.map pair ++ List.replicate n [], ' ' ∉ piece := by
    intro piece hpiece
    rcases List.mem_append.mp hpiece with hpiece | hpiece
    · obtain ⟨b, -, rfl⟩ := List.mem_map.mp hpiece
      exact blank_not_mem_pair b
    · rw [List.eq_of_mem_replicate hpiece]
      simp
  have hpairs : (row.map pair).filter (· ≠ []) = row.map pair := by simp [pair]
  have hblanks : (List.replicate n ([] : List Char)).filter (· ≠ []) = [] := by simp
  rw [readPairs?, ← join_append_replicate hne, Text.split_join (by simp [h]) hpieces, List.filter_append, hpairs,
    hblanks, List.append_nil, mapM_byteOfPair?]

/-! ### Lines -/

private theorem clear_eq (b : UInt8) :
    clear b = if IsControl (Char.ofNat b.toNat) then '.' else Char.ofNat b.toNat := by
  have hcontrol : (b < 32 ∨ 127 ≤ b ∧ b < 160) ↔ IsControl (Char.ofNat b.toNat) := by
    unfold IsControl
    rw [Text.Utf16.toNat_ofNat_byte, UInt8.lt_iff_toNat_lt, UInt8.le_iff_toNat_le, UInt8.lt_iff_toNat_lt]
    rfl
  simp only [clear, hcontrol]

private theorem not_isControl_clear (b : UInt8) : ¬IsControl (clear b) := by
  rw [clear_eq]
  split
  · decide
  · assumption

private theorem feed_not_mem_dumpRow (row : List UInt8) : '\n' ∉ dumpRow row := by
  have hcontrol : IsControl '\n' := by decide
  intro h
  simp only [dumpRow, List.mem_append, List.mem_replicate, List.mem_cons, List.not_mem_nil, List.mem_map] at h
  rcases h with ((hpair | ⟨-, hblank⟩) | hgap) | ⟨b, -, hclear⟩
  · rcases Text.mem_join hpair with ⟨piece, hpiece, hmem⟩ | hblank
    · obtain ⟨b, -, rfl⟩ := List.mem_map.mp hpiece
      have hdigits : '\n' ∈ digits [b] := by simpa [digits] using hmem
      exact absurd (mem_digitSigns_of_mem_digits hdigits) (by decide)
    · exact absurd hblank (by decide)
  · exact absurd hblank (by decide)
  · simp at hgap
  · exact not_isControl_clear b (hclear ▸ hcontrol)

private theorem showsRow_dumpRow (hne : row ≠ []) (hlength : row.length ≤ 8) : ShowsRow (dumpRow row) row := by
  have hpos := List.length_pos_iff.mpr hne
  have hblanks : 3 * (8 - row.length) = 24 - 3 * row.length := by omega
  have hrow : dumpRow row = (join ' ' (row.map pair) ++ List.replicate (24 - 3 * row.length) ' ') ++
      ' ' :: ' ' :: ' ' :: row.map clear := by
    simp [dumpRow, hblanks]
  have hwidth : (join ' ' (row.map pair) ++ List.replicate (24 - 3 * row.length) ' ').length = 23 := by
    rw [List.length_append, length_join_pairs hne, List.length_replicate]
    omega
  have htake : (dumpRow row).take 23 = join ' ' (row.map pair) ++ List.replicate (24 - 3 * row.length) ' ' := by
    rw [hrow, List.take_left' hwidth]
  have hclear : row.map clear = row.map fun b => if IsControl (Char.ofNat b.toNat) then '.' else Char.ofNat b.toNat :=
    List.map_congr_left fun b _ => clear_eq b
  refine ⟨htake, by rw [htake, hwidth], ?_, ?_, feed_not_mem_dumpRow row⟩
  · rw [htake, readPairs?_columns hne]
  · rw [hrow, List.drop_left' hwidth, hclear]

/-! ### Dumps -/

private theorem toList_dump (bytes : List UInt8) : (dump bytes).toList = join '\n' ((rows bytes).map dumpRow) :=
  String.toList_ofList

private theorem mapM_readPairs? {lines : List (List UInt8)} (h : ∀ row ∈ lines, ShowsRow (dumpRow row) row) :
    ((lines.map dumpRow).mapM fun line => readPairs? (line.take 23)) = some lines := by
  induction lines with
  | nil => rfl
  | cons row lines ih =>
    have hrow := (h row List.mem_cons_self).pairs
    have hlines := ih fun other hother => h other (List.mem_cons_of_mem _ hother)
    simp [hrow, hlines]

private theorem readDump?_dump (bytes : List UInt8) : readDump? (dump bytes) = some bytes := by
  by_cases hnil : bytes = []
  · subst hnil
    decide
  · have hlines : (rows bytes).map dumpRow ≠ [] := by simp [rows_of_ne_nil hnil]
    have hfeeds : ∀ line ∈ (rows bytes).map dumpRow, '\n' ∉ line := by
      intro line hline
      obtain ⟨row, -, rfl⟩ := List.mem_map.mp hline
      exact feed_not_mem_dumpRow row
    have hshows : ∀ row ∈ rows bytes, ShowsRow (dumpRow row) row := by
      intro row hrow
      obtain ⟨hne, hlength⟩ := ne_nil_and_length_le_of_mem_rows hrow
      exact showsRow_dumpRow hne hlength
    rw [readDump?, toList_dump, Text.split_join hlines hfeeds, mapM_readPairs? hshows, Option.map_some, flatten_rows]

/-- Where each piece has a character at its end, so has the text that they are joined to. -/
private theorem getLast?_join_ne {separator : Char} {pieces : List (List Char)}
    (h : ∀ piece ∈ pieces, piece ≠ [] ∧ separator ∉ piece) : (join separator pieces).getLast? ≠ some separator := by
  cases pieces using List.reverseRecOn with
  | nil => simp [join]
  | append_singleton pieces last =>
    obtain ⟨hne, hseparator⟩ := h last (by simp)
    have hlast : last.getLast? ≠ some separator := fun heq => hseparator (List.mem_of_getLast? heq)
    by_cases hnil : pieces = []
    · subst hnil
      exact hlast
    · have htail : (separator :: last).getLast? = last.getLast? := by
        simp [List.getLast?_cons, List.getLast?_eq_some_getLast hne]
      rwa [join_append_singleton hnil, List.getLast?_append_of_ne_nil _ (by simp), htail]

/-- A dump has a line for each eight bytes that are begun, with a line feed between each two lines and none at the end.
Each line shows its bytes in pairs of digits and as characters. The pairs are read back as the bytes, so no other bytes
have this dump. -/
theorem dump_readable (bytes : List UInt8) :
    (∃ lines : List (List Char), (dump bytes).toList = join '\n' lines ∧ lines.length = (bytes.length + 7) / 8 ∧
      ∀ i line, lines[i]? = some line → ShowsRow line ((bytes.drop (8 * i)).take 8)) ∧
    (dump bytes).toList.getLast? ≠ some '\n' ∧ readDump? (dump bytes) = some bytes ∧
    ∀ others, dump bytes = dump others → bytes = others := by
  refine ⟨⟨(rows bytes).map dumpRow, toList_dump bytes, by simp [rows_eq], fun i line hline => ?_⟩, ?_,
    readDump?_dump bytes, fun others h => ?_⟩
  · rw [List.getElem?_map] at hline
    obtain ⟨row, hrow, rfl⟩ := Option.map_eq_some_iff.mp hline
    obtain ⟨hne, hlength⟩ := ne_nil_and_length_le_of_mem_rows (List.mem_of_getElem? hrow)
    rw [rows_eq, List.getElem?_map] at hrow
    obtain ⟨j, hj, rfl⟩ := Option.map_eq_some_iff.mp hrow
    obtain ⟨hi, hj⟩ := List.getElem?_eq_some_iff.mp hj
    rw [List.getElem_range] at hj
    subst hj
    exact showsRow_dumpRow hne hlength
  · rw [toList_dump]
    refine getLast?_join_ne fun line hline => ?_
    obtain ⟨row, -, rfl⟩ := List.mem_map.mp hline
    exact ⟨by simp [dumpRow], feed_not_mem_dumpRow row⟩
  · have hread := readDump?_dump bytes
    rw [h, readDump?_dump] at hread
    exact (Option.some.inj hread).symm

/-- Control characters are shown as full stops, and the second line is filled up in front of its characters. -/
example : dump [65, 66, 67, 68, 69, 70, 71, 72, 133, 10] =
    "41 42 43 44 45 46 47 48   ABCDEFGH\n85 0A                     .." := rfl

end CertExtensions.Hex
