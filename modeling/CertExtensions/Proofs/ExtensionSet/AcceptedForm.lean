import CertExtensions.Proofs.ExtensionSet.StoredForm

/-!
# What loading accepts

A reader of a part of a stored set that succeeds has taken off just the bytes that the writer of this part produces for
what it has read: a count, a text, an entry, any number of entries, a block. So bytes are loaded exactly where they
start with mark, version and two blocks (`takeStored_eq_ok_iff`). There is one way only to see them so, and of the
entries for an identifier the last one counts (`load_accepts`).
-/

namespace CertExtensions.ExtensionSet

open Reader Text BigEndian

variable {bytes rest : List UInt8}

/-! ### Fields -/

theorem takeBytes_eq_ok {n : Nat} {taken : List UInt8} (h : takeBytes n bytes = .ok (taken, rest)) :
    taken.length = n ∧ bytes = taken ++ rest := by
  simp only [takeBytes] at h
  split at h
  · cases h
  · next hlength =>
    cases h
    have hle := List.length_take_le n bytes
    exact ⟨by omega, (List.take_append_drop n bytes).symm⟩

private theorem takeCount_eq_ok {n : Nat} (h : takeCount bytes = .ok (n, rest)) :
    n < countLimit ∧ bytes = countBytes n ++ rest := by
  obtain ⟨field, after, hfield, hnext⟩ := step_of_bind_eq_ok h
  obtain ⟨hlength, rfl⟩ := takeBytes_eq_ok hfield
  by_cases hnegative : signedValue field < 0
  · simp only [hnegative, ↓reduceIte] at hnext
    cases hnext
  · simp only [hnegative, ↓reduceIte] at hnext
    cases hnext
    obtain ⟨hvalue, hlt⟩ := value_of_signedValue (Int.toNat_of_nonneg (Int.not_lt.mp hnegative)).symm
    rw [hlength] at hlt
    refine ⟨by unfold countLimit; omega, ?_⟩
    rw [countBytes, ← eq_fixed_of_value hlength hvalue]

private theorem takeText_eq_ok {n : Nat} {text : String} (h : takeText n bytes = .ok (text, rest)) :
    (Utf16.units text.toList).length = n ∧ bytes = Utf16.unitBytes (Utf16.units text.toList) ++ rest := by
  obtain ⟨field, after, hfield, hnext⟩ := step_of_bind_eq_ok h
  obtain ⟨hlength, rfl⟩ := takeBytes_eq_ok hfield
  obtain ⟨hbytes, hunits⟩ := Utf16.unitBytes_unitsOfBytes hlength
  cases hdecode : Utf16.decode? (Utf16.unitsOfBytes field) with
  | none =>
    simp only [hdecode] at hnext
    cases hnext
  | some characters =>
    simp only [hdecode] at hnext
    cases hnext
    rw [String.toList_ofList, Utf16.units_of_decode? (Utf16.unitsOfBytes_lt field) hdecode, hbytes]
    exact ⟨hunits, rfl⟩

/-! ### Entries and blocks -/

private theorem takeEntry_eq_ok {entry : Partition.Entry} (h : takeEntry bytes = .ok (entry, rest)) :
    entry.Fits ∧ bytes = entryBytes entry ++ rest := by
  obtain ⟨count, atText, hcount, h⟩ := step_of_bind_eq_ok h
  obtain ⟨identifier, atLength, htext, h⟩ := step_of_bind_eq_ok h
  obtain ⟨length, atValue, hlength, h⟩ := step_of_bind_eq_ok h
  obtain ⟨value, after, hvalue, h⟩ := step_of_bind_eq_ok h
  cases h
  obtain ⟨hcountLt, rfl⟩ := takeCount_eq_ok hcount
  obtain ⟨rfl, rfl⟩ := takeText_eq_ok htext
  obtain ⟨hlengthLt, rfl⟩ := takeCount_eq_ok hlength
  obtain ⟨rfl, rfl⟩ := takeBytes_eq_ok hvalue
  refine ⟨⟨hcountLt, hlengthLt⟩, ?_⟩
  simp only [entryBytes, List.append_assoc]
  rfl

private theorem takeEntries_eq_ok {n : Nat} {entries : List Partition.Entry}
    (h : takeEntries n bytes = .ok (entries, rest)) :
    entries.length = n ∧ (∀ entry ∈ entries, entry.Fits) ∧
      bytes = entries.flatMap entryBytes ++ rest := by
  induction n generalizing bytes entries with
  | zero =>
    cases h
    exact ⟨rfl, by simp, rfl⟩
  | succ n ih =>
    obtain ⟨entry, atMore, hentry, h⟩ := step_of_bind_eq_ok h
    obtain ⟨more, after, hmore, h⟩ := step_of_bind_eq_ok h
    cases h
    obtain ⟨hfits, rfl⟩ := takeEntry_eq_ok hentry
    obtain ⟨hlength, hall, rfl⟩ := ih hmore
    refine ⟨congrArg (· + 1) hlength, List.forall_mem_cons.mpr ⟨hfits, hall⟩, ?_⟩
    rw [List.flatMap_cons, List.append_assoc]

private theorem takeBlock_eq_ok {entries : List Partition.Entry} (h : takeBlock bytes = .ok (entries, rest)) :
    BlockFits entries ∧ bytes = blockBytes entries ++ rest := by
  obtain ⟨count, atEntries, hcount, hentries⟩ := step_of_bind_eq_ok h
  obtain ⟨hcountLt, rfl⟩ := takeCount_eq_ok hcount
  obtain ⟨rfl, hall, rfl⟩ := takeEntries_eq_ok hentries
  exact ⟨⟨hcountLt, hall⟩, (List.append_assoc _ _ _).symm⟩

private theorem takeMark_eq_ok (h : takeMark bytes = .ok ((), rest)) : bytes = fixed 8 mark ++ rest := by
  obtain ⟨field, after, hfield, hnext⟩ := step_of_bind_eq_ok h
  obtain ⟨hlength, rfl⟩ := takeBytes_eq_ok hfield
  by_cases hmark : value field = mark
  · simp only [hmark, ne_eq, not_true_eq_false, ↓reduceIte] at hnext
    cases hnext
    rw [← eq_fixed_of_value hlength hmark]
  · simp only [ne_eq, hmark, not_false_eq_true, ↓reduceIte] at hnext
    cases hnext

private theorem takeVersion_eq_ok (h : takeVersion bytes = .ok ((), rest)) : bytes = countBytes version ++ rest := by
  obtain ⟨field, after, hfield, hnext⟩ := step_of_bind_eq_ok h
  obtain ⟨hlength, rfl⟩ := takeBytes_eq_ok hfield
  by_cases hversion : signedValue field = version
  · simp only [hversion, ne_eq, not_true_eq_false, ↓reduceIte] at hnext
    cases hnext
    rw [countBytes, ← eq_fixed_of_value hlength (value_of_signedValue hversion).1]
  · simp only [ne_eq, hversion, not_false_eq_true, ↓reduceIte] at hnext
    cases hnext

/-! ### Whole sets -/

/-- Whether the bytes are the number `0x47911131`, the number 1, and the blocks of the critical and the other entries,
with these bytes behind them. -/
structure IsStored (bytes : List UInt8) (critical nonCritical : List Partition.Entry) (rest : List UInt8) : Prop where
  criticalFits : BlockFits critical
  nonCriticalFits : BlockFits nonCritical
  layout : bytes = [0, 0, 0, 0, 0x47, 0x91, 0x11, 0x31] ++ [0, 0, 0, 1] ++ blockBytes critical ++
    blockBytes nonCritical ++ rest

theorem storedBytes_eq (critical nonCritical : List Partition.Entry) :
    storedBytes critical nonCritical =
      [0, 0, 0, 0, 0x47, 0x91, 0x11, 0x31] ++ [0, 0, 0, 1] ++ blockBytes critical ++ blockBytes nonCritical := by
  have hmark : fixed 8 mark = [0, 0, 0, 0, 0x47, 0x91, 0x11, 0x31] := by decide
  have hversion : countBytes version = [0, 0, 0, 1] := by decide
  rw [storedBytes, hmark, hversion]

theorem takeStored_eq_ok_iff {critical nonCritical : List Partition.Entry} :
    takeStored bytes = .ok ((critical, nonCritical), rest) ↔ IsStored bytes critical nonCritical rest := by
  constructor
  · intro h
    obtain ⟨⟨⟩, atVersion, hmark, h⟩ := step_of_bind_eq_ok h
    obtain ⟨⟨⟩, atCritical, hversion, h⟩ := step_of_bind_eq_ok h
    obtain ⟨first, atNonCritical, hcritical, h⟩ := step_of_bind_eq_ok h
    obtain ⟨second, after, hnonCritical, h⟩ := step_of_bind_eq_ok h
    cases h
    obtain rfl := takeMark_eq_ok hmark
    obtain rfl := takeVersion_eq_ok hversion
    obtain ⟨hfirst, rfl⟩ := takeBlock_eq_ok hcritical
    obtain ⟨hsecond, rfl⟩ := takeBlock_eq_ok hnonCritical
    refine ⟨hfirst, hsecond, ?_⟩
    rw [← storedBytes_eq]
    simp only [storedBytes, List.append_assoc]
  · intro h
    rw [h.layout, ← storedBytes_eq]
    exact takeStored_storedBytes h.criticalFits h.nonCriticalFits rest

/-- Bytes can be seen in one way only as two blocks with bytes behind them. -/
theorem IsStored.unique {critical nonCritical critical' nonCritical' : List Partition.Entry} {rest' : List UInt8}
    (h : IsStored bytes critical nonCritical rest) (h' : IsStored bytes critical' nonCritical' rest') :
    critical = critical' ∧ nonCritical = nonCritical' ∧ rest = rest' := by
  have hread := (takeStored_eq_ok_iff.mpr h).symm.trans (takeStored_eq_ok_iff.mpr h')
  cases hread
  exact ⟨rfl, rfl, rfl⟩

/-- The extensions of two blocks, in the order of their entries. -/
def inStoredOrder (critical nonCritical : List Partition.Entry) : List Extension :=
  critical.map (·.extension true) ++ nonCritical.map (·.extension false)

theorem load_eq_ok_iff {set : ExtensionSet} :
    load bytes = .ok set ↔ ∃ critical nonCritical rest, IsStored bytes critical nonCritical rest ∧
      set = empty.insertAll (inStoredOrder critical nonCritical) := by
  simp only [inStoredOrder, insertAll_append, load_eq_map]
  constructor
  · intro h
    obtain ⟨⟨⟨critical, nonCritical⟩, rest⟩, hread, rfl⟩ := map_eq_ok h
    exact ⟨critical, nonCritical, rest, takeStored_eq_ok_iff.mp hread, rfl⟩
  · rintro ⟨critical, nonCritical, rest, hstored, rfl⟩
    rw [takeStored_eq_ok_iff.mpr hstored]
    rfl

/-- Bytes are loaded exactly where they are mark, version and two blocks, and others behind them. The two lists of
entries are unique; the set is that of their extensions added in this order, so the last entry for an identifier
counts, whether critical or not. -/
theorem load_accepts (bytes : List UInt8) :
    (∀ set, load bytes = .ok set ↔ ∃ critical nonCritical rest, IsStored bytes critical nonCritical rest ∧
        set = empty.insertAll (inStoredOrder critical nonCritical)) ∧
      (∀ critical nonCritical rest critical' nonCritical' rest', IsStored bytes critical nonCritical rest →
        IsStored bytes critical' nonCritical' rest' →
        critical = critical' ∧ nonCritical = nonCritical' ∧ rest = rest') ∧
      ∀ set critical nonCritical rest, load bytes = .ok set → IsStored bytes critical nonCritical rest →
        ∀ identifier, set.find? identifier =
          (inStoredOrder critical nonCritical).reverse.find? (·.identifier = identifier) := by
  refine ⟨fun set => load_eq_ok_iff, fun _ _ _ _ _ _ => IsStored.unique, ?_⟩
  intro set critical nonCritical rest hload hstored identifier
  obtain ⟨_, _, _, hstored', rfl⟩ := load_eq_ok_iff.mp hload
  obtain ⟨rfl, rfl, rfl⟩ := hstored.unique hstored'
  rw [find?_insertAll, find?_empty, Option.or_none]

/-- Two critical entries and another entry, all for one identifier, and a byte behind the blocks. -/
theorem load_accepts_duplicates :
    let critical : List Partition.Entry := [⟨"2.5", [1]⟩, ⟨"2.5", [2, 3]⟩]
    let nonCritical : List Partition.Entry := [⟨"2.5", []⟩]
    let bytes := storedBytes critical nonCritical ++ [9]
    ∃ set, load bytes = .ok set ∧ set.find? "2.5" = some ⟨"2.5", false, []⟩ := by
  intro critical nonCritical bytes
  have hstored : IsStored bytes critical nonCritical [9] := by
    refine ⟨⟨by decide, ?_⟩, ⟨by decide, ?_⟩, congrArg (· ++ [9]) (storedBytes_eq critical nonCritical)⟩
    · intro entry hentry
      constructor <;> revert entry <;> decide
    · intro entry hentry
      constructor <;> revert entry <;> decide
  obtain ⟨haccepts, -, hlast⟩ := load_accepts bytes
  have hload := (haccepts _).mpr ⟨_, _, _, hstored, rfl⟩
  exact ⟨_, hload, hlast _ _ _ _ hload hstored "2.5"⟩

end CertExtensions.ExtensionSet
