import CertExtensions.ExtensionSet.Binary

/-!
# What is written of a set

The bytes of an entry, of a block and of two blocks behind mark and version (`storedBytes`) are told here for counts and
lengths of any size, and the writers are compared with them. `Writes` says of a writer that it writes its bytes if all
counts and lengths have a stored form, and that it otherwise stops at one that has none, behind everything that stands
in front of it; what holds of two writers holds of both in a row (`Writes.bind`), and so of the writer of a whole set
(`writes_putStored`). So a set is saved just if all its counts and lengths have a stored form (`save_of_blockFits`,
`save_eq_ok`), and otherwise the beginning of its stored form has been written (`exists_putStored_eq_error`).
-/

namespace CertExtensions

/-- Whether the lengths in an entry have a stored form. -/
structure Partition.Entry.Fits (entry : Partition.Entry) : Prop where
  identifier : entry.units.length < ExtensionSet.countLimit
  value : entry.value.length < ExtensionSet.countLimit

namespace ExtensionSet

/-! ### Stored forms -/

def entryBytes (entry : Partition.Entry) : List UInt8 :=
  countBytes entry.units.length ++ Text.Utf16.unitBytes entry.units ++
    (countBytes entry.value.length ++ entry.value)

def blockBytes (entries : List Partition.Entry) : List UInt8 :=
  countBytes entries.length ++ entries.flatMap entryBytes

/-- The bytes of two blocks behind mark and version. -/
def storedBytes (critical nonCritical : List Partition.Entry) : List UInt8 :=
  BigEndian.fixed 8 mark ++ countBytes version ++ blockBytes critical ++ blockBytes nonCritical

/-- Whether the counts and lengths in a block have a stored form. -/
structure BlockFits (entries : List Partition.Entry) : Prop where
  count : entries.length < countLimit
  entry : ∀ entry ∈ entries, entry.Fits

/-! ### Writers -/

/-- Whether a writer writes the bytes if the condition holds, and otherwise stops at a number that has no stored form,
when it has written what stands in front of this number. -/
structure Writes (writer : StoredWriter) (fits : Prop) (bytes : List UInt8) : Prop where
  ok : fits → ∀ front, writer front = .ok () (front ++ bytes)
  error : ¬fits → ∃ n written, countLimit ≤ n ∧ written ++ countBytes n <+: bytes ∧
    ∀ front, writer front = .error (.oversize n) (front ++ written)

variable {first second : StoredWriter} {p q : Prop} {bytes more front after : List UInt8}

private theorem second_of_ok (h : first front = .ok () after) : (first >>= fun _ => second) front = second after := by
  simp only [bind, EStateM.bind, h]

private theorem first_of_error {error : Error} (h : first front = .error error after) :
    (first >>= fun _ => second) front = .error error after := by
  simp only [bind, EStateM.bind, h]

/-- A writer behind another one. -/
theorem Writes.bind (hfirst : Writes first p bytes) (hsecond : Writes second q more) :
    Writes (first >>= fun _ => second) (p ∧ q) (bytes ++ more) where
  ok h front := by
    rw [second_of_ok (hfirst.ok h.1 front), hsecond.ok h.2, List.append_assoc]
  error h := by
    by_cases hp : p
    · obtain ⟨n, written, hn, hprefix, herror⟩ := hsecond.error fun hq => h ⟨hp, hq⟩
      refine ⟨n, bytes ++ written, hn, ?_, fun front => ?_⟩
      · rw [List.append_assoc]
        exact (List.prefix_append_right_inj bytes).mpr hprefix
      · rw [second_of_ok (hfirst.ok hp front), herror, List.append_assoc]
    · obtain ⟨n, written, hn, hprefix, herror⟩ := hfirst.error hp
      exact ⟨n, written, hn, hprefix.trans (List.prefix_append bytes more), fun front => first_of_error (herror front)⟩

private theorem Writes.congr (h : Writes first p bytes) (hfits : p ↔ q) (hbytes : bytes = more) :
    Writes first q more := by
  obtain rfl := propext hfits
  obtain rfl := hbytes
  exact h

private theorem writes_putBytes (bytes : List UInt8) : Writes (putBytes bytes) True bytes where
  ok _ _ := rfl
  error h := absurd trivial h

private theorem writes_putCount (n : Nat) : Writes (putCount n) (n < countLimit) (countBytes n) where
  ok hn front := by
    rw [putCount, if_pos hn]
    rfl
  error hn := by
    refine ⟨n, [], Nat.not_lt.mp hn, List.prefix_rfl, fun front => ?_⟩
    rw [putCount, if_neg hn, List.append_nil]
    rfl

private theorem writes_putEntry (entry : Partition.Entry) : Writes (putEntry entry) entry.Fits (entryBytes entry) := by
  have hvalue := (writes_putCount entry.value.length).bind (writes_putBytes entry.value)
  have hunits := (writes_putBytes (Text.Utf16.unitBytes entry.units)).bind hvalue
  refine ((writes_putCount entry.units.length).bind hunits).congr ⟨?_, ?_⟩ ?_
  · rintro ⟨hunits, -, hvalue, -⟩
    exact ⟨hunits, hvalue⟩
  · rintro ⟨hunits, hvalue⟩
    exact ⟨hunits, trivial, hvalue, trivial⟩
  · simp only [entryBytes, List.append_assoc]

private theorem writes_putEntries (entries : List Partition.Entry) :
    Writes (putEntries entries) (∀ entry ∈ entries, entry.Fits) (entries.flatMap entryBytes) := by
  induction entries with
  | nil =>
    refine ⟨fun _ front => ?_, fun h => absurd (List.forall_mem_nil _) h⟩
    rw [List.flatMap_nil, List.append_nil]
    rfl
  | cons entry entries ih =>
    exact ((writes_putEntry entry).bind ih).congr List.forall_mem_cons.symm List.flatMap_cons.symm

private theorem writes_putBlock (entries : List Partition.Entry) :
    Writes (putBlock entries) (BlockFits entries) (blockBytes entries) := by
  refine ((writes_putCount entries.length).bind (writes_putEntries entries)).congr ⟨?_, ?_⟩ rfl
  · rintro ⟨hcount, hentry⟩
    exact ⟨hcount, hentry⟩
  · rintro ⟨hcount, hentry⟩
    exact ⟨hcount, hentry⟩

/-! ### Whole sets -/

variable {set : ExtensionSet}

theorem writes_putStored (set : ExtensionSet) :
    Writes set.putStored (BlockFits set.criticalPart.entries ∧ BlockFits set.nonCriticalPart.entries)
      (storedBytes set.criticalPart.entries set.nonCriticalPart.entries) := by
  have hblocks := (writes_putBlock set.criticalPart.entries).bind (writes_putBlock set.nonCriticalPart.entries)
  have hversion := (writes_putBytes (countBytes version)).bind hblocks
  refine ((writes_putBytes (BigEndian.fixed 8 mark)).bind hversion).congr ?_ ?_
  · simp only [true_and]
  · simp only [storedBytes, List.append_assoc]

theorem putStored_of_blockFits (hcritical : BlockFits set.criticalPart.entries)
    (hnonCritical : BlockFits set.nonCriticalPart.entries) :
    set.putStored [] = .ok () (storedBytes set.criticalPart.entries set.nonCriticalPart.entries) :=
  (writes_putStored set).ok ⟨hcritical, hnonCritical⟩ []

theorem save_of_blockFits (hcritical : BlockFits set.criticalPart.entries)
    (hnonCritical : BlockFits set.nonCriticalPart.entries) :
    set.save = .ok (storedBytes set.criticalPart.entries set.nonCriticalPart.entries) := by
  rw [save, putStored_of_blockFits hcritical hnonCritical]

/-- Where the writing stops, it does so at a number that is too large, and has written the stored form up to there. -/
theorem exists_putStored_eq_error
    (h : ¬(BlockFits set.criticalPart.entries ∧ BlockFits set.nonCriticalPart.entries)) :
    ∃ n written, countLimit ≤ n ∧ set.putStored [] = .error (.oversize n) written ∧
      written ++ countBytes n <+: storedBytes set.criticalPart.entries set.nonCriticalPart.entries := by
  obtain ⟨n, written, hn, hprefix, herror⟩ := (writes_putStored set).error h
  exact ⟨n, written, hn, herror [], hprefix⟩

/-- A set that is saved has counts and lengths that are small enough, and is two blocks behind mark and version. -/
theorem save_eq_ok (h : set.save = .ok bytes) :
    BlockFits set.criticalPart.entries ∧ BlockFits set.nonCriticalPart.entries ∧
      bytes = storedBytes set.criticalPart.entries set.nonCriticalPart.entries := by
  by_cases hfits : BlockFits set.criticalPart.entries ∧ BlockFits set.nonCriticalPart.entries
  · rw [save_of_blockFits hfits.1 hfits.2] at h
    cases h
    exact ⟨hfits.1, hfits.2, rfl⟩
  · obtain ⟨n, written, -, herror, -⟩ := exists_putStored_eq_error hfits
    rw [save, herror] at h
    cases h

end ExtensionSet

end CertExtensions
