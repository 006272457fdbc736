import CertExtensions.Proofs.ExtensionSet.Contents
import CertExtensions.Proofs.ExtensionSet.StoredWriter
import CertExtensions.Proofs.Reader
import CertExtensions.Proofs.Utf16

/-!
# Storing a set and loading it again

Each reader of a part of a stored set takes back what the writer of that part produces, whatever bytes follow:
counts, texts, entries, blocks, and at last two blocks behind mark and version (`takeStored_storedBytes`). A set whose
counts and lengths are small enough is stored, and loading the bytes gives the set (`load_save`).
-/

namespace CertExtensions.ExtensionSet

open Reader Text BigEndian

/-! ### Fields -/

theorem takeBytes_append {n : Nat} {front : List UInt8} (h : front.length = n) (rest : List UInt8) :
    takeBytes n (front ++ rest) = .ok (front, rest) := by
  subst h
  unfold takeBytes
  simp only [List.take_left, List.drop_left, Nat.lt_irrefl, ↓reduceIte]

private theorem takeCount_countBytes {n : Nat} (h : n < countLimit) (rest : List UInt8) :
    takeCount (countBytes n ++ rest) = .ok (n, rest) := by
  have hvalue : signedValue (fixed 4 n) = n := signedValue_fixed (by unfold countLimit at h; omega)
  unfold takeCount countBytes
  rw [bind_of_ok (takeBytes_append (length_fixed 4 n) rest), hvalue]
  simp only [Int.natCast_nonneg, Int.not_lt.mpr, ↓reduceIte, Int.toNat_natCast]
  rfl

private theorem takeText_unitBytes (text : String) (rest : List UInt8) :
    takeText (Utf16.units text.toList).length (Utf16.unitBytes (Utf16.units text.toList) ++ rest) =
      .ok (text, rest) := by
  unfold takeText
  rw [bind_of_ok (takeBytes_append (Utf16.length_unitBytes _) rest),
    Utf16.unitsOfBytes_unitBytes fun _ => Utf16.units_lt, Utf16.decode?_units]
  change Except.ok (String.ofList text.toList, rest) = _
  rw [String.ofList_toList]

/-! ### Entries and blocks -/

private theorem takeEntry_entryBytes {entry : Partition.Entry} (h : entry.Fits) (rest : List UInt8) :
    takeEntry (entryBytes entry ++ rest) = .ok (entry, rest) := by
  have htext : ∀ more, takeText entry.units.length (Utf16.unitBytes entry.units ++ more) =
      .ok (entry.identifier, more) := takeText_unitBytes entry.identifier
  unfold takeEntry entryBytes
  simp only [List.append_assoc]
  rw [bind_of_ok (takeCount_countBytes h.identifier _), bind_of_ok (htext _),
    bind_of_ok (takeCount_countBytes h.value _), bind_of_ok (takeBytes_append rfl rest)]
  rfl

private theorem takeEntries_flatMap {entries : List Partition.Entry} (h : ∀ entry ∈ entries, entry.Fits)
    (rest : List UInt8) :
    takeEntries entries.length (entries.flatMap entryBytes ++ rest) = .ok (entries, rest) := by
  induction entries with
  | nil => rfl
  | cons entry entries ih =>
    have hentry := takeEntry_entryBytes (h entry List.mem_cons_self) (entries.flatMap entryBytes ++ rest)
    have hentries := ih fun other hother => h other (List.mem_cons_of_mem _ hother)
    rw [List.flatMap_cons, List.append_assoc, List.length_cons, takeEntries, bind_of_ok hentry,
      bind_of_ok hentries]
    rfl

private theorem takeBlock_blockBytes {entries : List Partition.Entry} (h : BlockFits entries) (rest : List UInt8) :
    takeBlock (blockBytes entries ++ rest) = .ok (entries, rest) := by
  unfold takeBlock blockBytes
  rw [List.append_assoc, bind_of_ok (takeCount_countBytes h.count _), takeEntries_flatMap h.entry]

private theorem takeMark_fixed (rest : List UInt8) : takeMark (fixed 8 mark ++ rest) = .ok ((), rest) := by
  unfold takeMark
  rw [bind_of_ok (takeBytes_append (length_fixed 8 mark) rest), value_fixed_of_lt (by decide), if_neg (by simp)]
  rfl

private theorem takeVersion_countBytes (rest : List UInt8) :
    takeVersion (countBytes version ++ rest) = .ok ((), rest) := by
  unfold takeVersion
  rw [countBytes, bind_of_ok (takeBytes_append (length_fixed 4 version) rest), signedValue_fixed (by decide),
    if_neg (by simp)]
  rfl

/-- Two blocks behind mark and version are read back, whatever follows them. -/
theorem takeStored_storedBytes {critical nonCritical : List Partition.Entry} (hcritical : BlockFits critical)
    (hnonCritical : BlockFits nonCritical) (rest : List UInt8) :
    takeStored (storedBytes critical nonCritical ++ rest) = .ok ((critical, nonCritical), rest) := by
  unfold takeStored storedBytes
  simp only [List.append_assoc]
  rw [bind_of_ok (takeMark_fixed _), bind_of_ok (takeVersion_countBytes _),
    bind_of_ok (takeBlock_blockBytes hcritical _), bind_of_ok (takeBlock_blockBytes hnonCritical _)]
  rfl

/-! ### Whole sets -/

/-- Whether the counts and lengths of a set are small enough for the stored form. -/
structure FitsStoredForm (set : ExtensionSet) : Prop where
  critical : set.critical.length ≤ 2 ^ 31 - 1
  nonCritical : set.nonCritical.length ≤ 2 ^ 31 - 1
  identifier : ∀ extension ∈ set.toList, (Utf16.units extension.identifier.toList).length ≤ 2 ^ 31 - 1
  value : ∀ extension ∈ set.toList, extension.value.length ≤ 2 ^ 31 - 1

private theorem lt_countLimit_of_le {n : Nat} (h : n ≤ 2 ^ 31 - 1) : n < countLimit := by
  unfold countLimit
  omega

private theorem blockFits_of_map {entries : List Partition.Entry} {critical : Bool}
    (hcount : (entries.map (·.extension critical)).length ≤ 2 ^ 31 - 1)
    (hidentifier : ∀ extension ∈ entries.map (·.extension critical),
      (Utf16.units extension.identifier.toList).length ≤ 2 ^ 31 - 1)
    (hvalue : ∀ extension ∈ entries.map (·.extension critical), extension.value.length ≤ 2 ^ 31 - 1) :
    BlockFits entries := by
  constructor
  · rw [List.length_map] at hcount
    exact lt_countLimit_of_le hcount
  · intro entry hentry
    have hextension := List.mem_map_of_mem (f := (·.extension critical)) hentry
    have hunits := lt_countLimit_of_le (hidentifier _ hextension)
    have hbytes := lt_countLimit_of_le (hvalue _ hextension)
    exact ⟨hunits, hbytes⟩

private theorem FitsStoredForm.criticalPart {set : ExtensionSet} (h : set.FitsStoredForm) :
    BlockFits set.criticalPart.entries :=
  blockFits_of_map h.critical (fun _ hmem => h.identifier _ (List.mem_append_left _ hmem))
    fun _ hmem => h.value _ (List.mem_append_left _ hmem)

private theorem FitsStoredForm.nonCriticalPart {set : ExtensionSet} (h : set.FitsStoredForm) :
    BlockFits set.nonCriticalPart.entries :=
  blockFits_of_map h.nonCritical (fun _ hmem => h.identifier _ (List.mem_append_right _ hmem))
    fun _ hmem => h.value _ (List.mem_append_right _ hmem)

/-- Putting the entries of a set together gives the set. -/
theorem ofEntries_entries (set : ExtensionSet) :
    ofEntries set.criticalPart.entries set.nonCriticalPart.entries = set := by
  rw [ofEntries, ← insertAll_append]
  exact insertAll_toList set

theorem load_eq_map (bytes : List UInt8) :
    load bytes = (takeStored bytes).map fun stored => ofEntries stored.1.1 stored.1.2 := by
  unfold load StateT.run
  cases takeStored bytes <;> rfl

theorem load_storedBytes {critical nonCritical : List Partition.Entry} (hcritical : BlockFits critical)
    (hnonCritical : BlockFits nonCritical) (rest : List UInt8) :
    load (storedBytes critical nonCritical ++ rest) = .ok (ofEntries critical nonCritical) := by
  rw [load_eq_map, takeStored_storedBytes hcritical hnonCritical]
  rfl

/-- Every set whose counts and lengths are small enough is stored, and the stored set is loaded as the same set. -/
theorem load_save (set : ExtensionSet) (h : set.FitsStoredForm) :
    ∃ bytes, set.save = .ok bytes ∧ load bytes = .ok set := by
  refine ⟨_, save_of_blockFits h.criticalPart h.nonCriticalPart, ?_⟩
  have hload := load_storedBytes h.criticalPart h.nonCriticalPart []
  rw [List.append_nil, ofEntries_entries] at hload
  exact hload

/-- A set with a critical extension under a name outside the basic plane and another one without a name. -/
theorem load_save_pair :
    let set := (empty.insert ⟨"😀", true, [4, 1, 255]⟩).insert ⟨"", false, []⟩
    set.FitsStoredForm ∧ ∃ bytes, set.save = .ok bytes ∧ load bytes = .ok set := by
  intro set
  have h : set.FitsStoredForm := by
    constructor <;> decide
  exact ⟨h, load_save set h⟩

end CertExtensions.ExtensionSet
