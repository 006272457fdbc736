import CertExtensions.Proofs.BigEndian
import CertExtensions.Text.Utf16

/-!
# Writing and reading UTF-16

Every text is read back from its code units (`decode?_units`), and code units of sixteen bits are read back from their
bytes (`unitsOfBytes_unitBytes`). The other way round, code units that are read as a text are those of this text and no
other (`units_of_decode?`), and an even number of bytes is that of their units (`unitBytes_unitsOfBytes`). Units are not
read just if a surrogate stands alone among them (`decode?_eq_none_iff`).
-/

namespace CertExtensions.Text.Utf16

open BigEndian

/-! ### Characters -/

theorem toNat_bounds (c : Char) : c.toNat < 0xD800 ∨ 0xDFFF < c.toNat ∧ c.toNat < 0x110000 :=
  c.valid

/-- A character outside the basic plane is that of its pair of surrogates. -/
private theorem pairChar_eq {c : Char} (h : 0x10000 ≤ c.toNat) :
    pairChar (0xD800 + (c.toNat - 0x10000) / 0x400) (0xDC00 + (c.toNat - 0x10000) % 0x400) = c := by
  have hn : 0x10000 + (0xD800 + (c.toNat - 0x10000) / 0x400 - 0xD800) * 0x400 +
      (0xDC00 + (c.toNat - 0x10000) % 0x400 - 0xDC00) = c.toNat := by omega
  rw [pairChar, hn, Char.ofNat_toNat]

private theorem scan_charUnits (c : Char) (rest : List Nat) : scan (charUnits c ++ rest) = some c :: scan rest := by
  have hc := toNat_bounds c
  unfold charUnits
  split
  · next h =>
    -- one unit, which is no surrogate because no character is one
    have hhigh : isHighSurrogate c.toNat = false := by
      simp only [isHighSurrogate, Bool.and_eq_false_iff, decide_eq_false_iff_not]
      omega
    have hlow : isLowSurrogate c.toNat = false := by
      simp only [isLowSurrogate, Bool.and_eq_false_iff, decide_eq_false_iff_not]
      omega
    rw [List.singleton_append, scan.eq_def]
    simp only [hhigh, hlow, Bool.false_eq_true, ↓reduceIte, Char.ofNat_toNat]
  · next h =>
    -- a high surrogate with ten bits and a low one with the ten bits below
    have hhigh : isHighSurrogate (0xD800 + (c.toNat - 0x10000) / 0x400) = true := by
      simp only [isHighSurrogate, Bool.and_eq_true, decide_eq_true_eq]
      omega
    have hlow : isLowSurrogate (0xDC00 + (c.toNat - 0x10000) % 0x400) = true := by
      simp only [isLowSurrogate, Bool.and_eq_true, decide_eq_true_eq]
      omega
    rw [List.cons_append, List.singleton_append, scan]
    simp only [hhigh, hlow, ↓reduceIte, pairChar_eq (Nat.not_lt.mp h)]

theorem toNat_ofNat_of_isValidChar {n : Nat} (h : n.isValidChar) : (Char.ofNat n).toNat = n := by
  rw [Char.ofNat, dif_pos h]
  rfl

/-- Each byte is the number of a character. -/
theorem toNat_ofNat_byte (b : UInt8) : (Char.ofNat b.toNat).toNat = b.toNat := by
  have hb := b.toNat_lt
  exact toNat_ofNat_of_isValidChar (.inl (by omega))

private theorem charUnits_ofNat {unit : Nat} (hlt : unit < 0x10000) (hhigh : isHighSurrogate unit = false)
    (hlow : isLowSurrogate unit = false) : charUnits (Char.ofNat unit) = [unit] := by
  simp only [isHighSurrogate, isLowSurrogate, Bool.and_eq_false_iff, decide_eq_false_iff_not] at hhigh hlow
  have hvalid : unit.isValidChar := by
    unfold Nat.isValidChar
    omega
  rw [charUnits, toNat_ofNat_of_isValidChar hvalid, if_pos hlt]

private theorem charUnits_pairChar {high low : Nat} (hhigh : isHighSurrogate high = true)
    (hlow : isLowSurrogate low = true) : charUnits (pairChar high low) = [high, low] := by
  simp only [isHighSurrogate, isLowSurrogate, Bool.and_eq_true, decide_eq_true_eq] at hhigh hlow
  have hvalid : (0x10000 + (high - 0xD800) * 0x400 + (low - 0xDC00)).isValidChar := by
    unfold Nat.isValidChar
    omega
  rw [charUnits, pairChar, toNat_ofNat_of_isValidChar hvalid, if_neg (by omega)]
  refine congrArg₂ (fun high low => [high, low]) ?_ ?_ <;> omega

/-! ### Texts -/

private theorem scan_units (text : List Char) : scan (units text) = text.map some := by
  induction text with
  | nil => rfl
  | cons c text ih =>
    have hunits : units (c :: text) = charUnits c ++ units text := List.flatMap_cons
    rw [hunits, scan_charUnits, ih, List.map_cons]

/-- Every text is read back from its code units. -/
theorem decode?_units (text : List Char) : decode? (units text) = some text := by
  rw [decode?, scan_units]
  induction text with
  | nil => rfl
  | cons c text ih => simp [List.mapM_cons, ih]

theorem units_lt {text : List Char} {unit : Nat} (h : unit ∈ units text) : unit < 0x10000 := by
  obtain ⟨c, -, hunit⟩ := List.mem_flatMap.mp h
  have hc := toNat_bounds c
  unfold charUnits at hunit
  split at hunit
  · rw [List.mem_singleton] at hunit
    omega
  · simp only [List.mem_cons, List.not_mem_nil, or_false] at hunit
    omega

/-- Units whose scan meets no surrogate without partner are those of the characters that it finds. -/
private theorem units_of_scan {us : List Nat} (h : ∀ unit ∈ us, unit < 0x10000) {text : List Char}
    (hscan : scan us = text.map some) : units text = us := by
  fun_induction scan us generalizing text with
  | case1 =>
    obtain rfl := List.map_eq_nil_iff.mp hscan.symm
    rfl
  | case2 u hhigh => cases text <;> simp at hscan
  | case3 u hhigh v rest hlow ih =>
    cases text with
    | nil => cases hscan
    | cons c text =>
      obtain ⟨hc, hrest⟩ := List.cons.inj hscan
      obtain rfl := Option.some.inj hc
      have hunits : units (pairChar u v :: text) = charUnits (pairChar u v) ++ units text := List.flatMap_cons
      rw [hunits, charUnits_pairChar hhigh hlow,
        ih (fun unit hunit => h unit (List.mem_cons_of_mem _ (List.mem_cons_of_mem _ hunit))) hrest]
      rfl
  | case4 u hhigh v rest hlow ih => cases text <;> simp at hscan
  | case5 u rest hhigh hlow ih => cases text <;> simp at hscan
  | case6 u rest hhigh hlow ih =>
    cases text with
    | nil => cases hscan
    | cons c text =>
      obtain ⟨hc, hrest⟩ := List.cons.inj hscan
      obtain rfl := Option.some.inj hc
      have hunits : units (Char.ofNat u :: text) = charUnits (Char.ofNat u) ++ units text := List.flatMap_cons
      rw [hunits, charUnits_ofNat (h u List.mem_cons_self) (Bool.eq_false_iff.mpr hhigh) (Bool.eq_false_iff.mpr hlow),
        ih (fun unit hunit => h unit (List.mem_cons_of_mem _ hunit)) hrest]
      rfl

private theorem scan_of_decode? {us : List Nat} {text : List Char} (h : decode? us = some text) :
    scan us = text.map some := by
  unfold decode? at h
  generalize scan us = found at h
  induction found generalizing text with
  | nil =>
    cases h
    rfl
  | cons c found ih =>
    cases c with
    | none => cases h
    | some c =>
      rw [List.mapM_cons] at h
      obtain ⟨c', hc, h⟩ := Option.bind_eq_some_iff.mp h
      obtain ⟨text', htext, h⟩ := Option.bind_eq_some_iff.mp h
      cases hc
      cases h
      rw [ih htext, List.map_cons]

/-- The units that are read as a text are the units of the text. -/
theorem units_of_decode? {us : List Nat} {text : List Char} (hlt : ∀ unit ∈ us, unit < 0x10000)
    (h : decode? us = some text) : units text = us :=
  units_of_scan hlt (scan_of_decode? h)

/-! ### Surrogates without partner -/

/-- Whether there is a high surrogate with no low one behind it, or a low one with no high one in front of it, where
`high` says whether there is a high one in front of all. -/
def HasLoneSurrogateAfter (high : Bool) (us : List Nat) : Prop :=
  ∃ front unit back, us = front ++ unit :: back ∧
    (isHighSurrogate unit ∧ back.head?.any isLowSurrogate = false ∨
      isLowSurrogate unit ∧ (front.getLast?.map isHighSurrogate).getD high = false)

/-- Whether a surrogate stands alone, with nothing in front of the units. -/
def HasLoneSurrogate (us : List Nat) : Prop :=
  HasLoneSurrogateAfter false us

private theorem hasLoneSurrogateAfter_nil (high : Bool) : ¬HasLoneSurrogateAfter high [] := by
  rintro ⟨front, unit, back, h, -⟩
  simp at h

private theorem hasLoneSurrogateAfter_cons (high : Bool) (u : Nat) (us : List Nat) :
    HasLoneSurrogateAfter high (u :: us) ↔
      isHighSurrogate u ∧ us.head?.any isLowSurrogate = false ∨ isLowSurrogate u ∧ high = false ∨
        HasLoneSurrogateAfter (isHighSurrogate u) us := by
  have hlast : ∀ front : List Nat, ((u :: front).getLast?.map isHighSurrogate).getD high =
      (front.getLast?.map isHighSurrogate).getD (isHighSurrogate u) := by
    intro front
    rw [List.getLast?_cons]
    cases front.getLast? <;> rfl
  constructor
  · rintro ⟨front, unit, back, h, hunit⟩
    cases front with
    | nil =>
      obtain ⟨rfl, rfl⟩ := List.cons.inj h
      rcases hunit with hhigh | hlow
      · exact .inl hhigh
      · exact .inr (.inl hlow)
    | cons w front =>
      obtain ⟨rfl, rfl⟩ := List.cons.inj h
      rw [hlast] at hunit
      exact .inr (.inr ⟨front, unit, back, rfl, hunit⟩)
  · rintro (hhigh | hlow | ⟨front, unit, back, rfl, hunit⟩)
    · exact ⟨[], u, us, rfl, .inl hhigh⟩
    · exact ⟨[], u, us, rfl, .inr hlow⟩
    · rw [← hlast] at hunit
      exact ⟨u :: front, unit, back, rfl, hunit⟩

private theorem not_high_of_low {unit : Nat} (h : isLowSurrogate unit = true) : isHighSurrogate unit = false := by
  simp only [isHighSurrogate, isLowSurrogate, Bool.and_eq_true, Bool.and_eq_false_iff, decide_eq_true_eq,
    decide_eq_false_iff_not] at h ⊢
  omega

private theorem none_mem_scan_iff (us : List Nat) : none ∈ scan us ↔ HasLoneSurrogate us := by
  unfold HasLoneSurrogate
  fun_induction scan us with
  | case1 => simp [hasLoneSurrogateAfter_nil]
  | case2 u hhigh => simp [hasLoneSurrogateAfter_cons, hhigh]
  | case3 u hhigh v rest hlow ih =>
    have hlow' : isHighSurrogate v = false := not_high_of_low hlow
    have hhigh' : isLowSurrogate u = false := by
      by_contra hne
      rw [not_high_of_low (by simpa using hne)] at hhigh
      cases hhigh
    simp [hasLoneSurrogateAfter_cons, hhigh, hlow, hhigh', hlow', ih]
  | case4 u hhigh v rest hlow ih => simp [hasLoneSurrogateAfter_cons, hhigh, hlow]
  | case5 u rest hhigh hlow ih => simp [hasLoneSurrogateAfter_cons, hlow]
  | case6 u rest hhigh hlow ih => simp [hasLoneSurrogateAfter_cons, hhigh, hlow, ih]

/-- Just units in which a surrogate stands alone are not read. -/
theorem decode?_eq_none_iff (us : List Nat) : decode? us = none ↔ HasLoneSurrogate us := by
  rw [← none_mem_scan_iff, decode?]
  induction scan us with
  | nil => simp
  | cons c found ih =>
    cases c with
    | none => simp
    | some c =>
      rw [List.mem_cons, ← ih]
      cases hfound : found.mapM id <;> simp [hfound]

/-! ### Bytes -/

theorem length_unitBytes (units : List Nat) : (unitBytes units).length = 2 * units.length := by
  induction units with
  | nil => rfl
  | cons unit units ih =>
    have hbytes : unitBytes (unit :: units) = fixed 2 unit ++ unitBytes units := List.flatMap_cons
    rw [hbytes, List.length_append, length_fixed, ih, List.length_cons]
    omega

theorem unitsOfBytes_unitBytes {units : List Nat} (h : ∀ unit ∈ units, unit < 0x10000) :
    unitsOfBytes (unitBytes units) = units := by
  induction units with
  | nil => rfl
  | cons unit units ih =>
    have hvalue : value (fixed 2 unit) = unit := value_fixed_of_lt (h unit List.mem_cons_self)
    have hbytes : unitBytes (unit :: units) = fixed 2 unit ++ unitBytes units := List.flatMap_cons
    obtain ⟨a, b, hab⟩ : ∃ a b, fixed 2 unit = [a, b] := ⟨_, _, rfl⟩
    rw [hab] at hvalue hbytes
    rw [hbytes, List.cons_append, List.singleton_append, unitsOfBytes, hvalue,
      ih fun other hother => h other (List.mem_cons_of_mem _ hother)]

theorem unitsOfBytes_lt (bytes : List UInt8) : ∀ unit ∈ unitsOfBytes bytes, unit < 0x10000 := by
  fun_induction unitsOfBytes bytes with
  | case1 a b rest ih =>
    intro unit hunit
    rcases List.mem_cons.mp hunit with rfl | hunit
    · have hvalue := value_lt [a, b]
      simpa using hvalue
    · exact ih unit hunit
  | case2 => simp

/-- Bytes without one left over are those of their units. -/
theorem unitBytes_unitsOfBytes {bytes : List UInt8} {n : Nat} (h : bytes.length = 2 * n) :
    unitBytes (unitsOfBytes bytes) = bytes ∧ (unitsOfBytes bytes).length = n := by
  induction n generalizing bytes with
  | zero =>
    obtain rfl := List.length_eq_zero_iff.mp h
    exact ⟨rfl, rfl⟩
  | succ n ih =>
    match bytes, h with
    | a :: b :: rest, h =>
      have hrest : rest.length = 2 * n := by
        simp only [List.length_cons] at h
        omega
      obtain ⟨hbytes, hlength⟩ := ih hrest
      have hunits : unitBytes (unitsOfBytes (a :: b :: rest)) =
          fixed 2 (value [a, b]) ++ unitBytes (unitsOfBytes rest) := List.flatMap_cons
      have hpair : fixed 2 (value [a, b]) = [a, b] := fixed_value [a, b]
      refine ⟨?_, ?_⟩
      · rw [hunits, hpair, hbytes]
        rfl
      · rw [unitsOfBytes, List.length_cons, hlength]

end CertExtensions.Text.Utf16
