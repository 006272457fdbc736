import CertExtensions.ExtensionSet.Description
import CertExtensions.Proofs.ExtensionSet.Session
import CertExtensions.Proofs.ExtensionSet.StoredForm
import Mathlib.Data.List.Nodup

/-!
# Canonical output

What is written for a set depends on nothing but its answers. Two sets with the same answers are equal
(`sameContent_iff`), whichever operations they come from. A finite map has its entries in no order: in whatever order they
are listed, sorting them gives the one order in which they are written (`lists_iff_perm`, `sorted_of_perm`). Conversely
the stored form tells the set (`eq_of_save`). `output_canonical` puts this together for any two runs.
-/

namespace CertExtensions

/-! ### Listings in any order -/

namespace Partition

/-- The entries in ascending order of their identifiers. -/
def sorted (listing : List Entry) : List Entry :=
  listing.mergeSort fun a b => decide (a.identifier ≤ b.identifier)

private theorem pairwise_sorted (listing : List Entry) :
    (sorted listing).Pairwise fun a b => a.identifier ≤ b.identifier := by
  have hsorted : (sorted listing).Pairwise fun a b => decide (a.identifier ≤ b.identifier) = true := by
    refine List.pairwise_mergeSort ?_ ?_ listing
    · intro a b c hab hbc
      rw [decide_eq_true_eq] at hab hbc ⊢
      exact String.le_trans hab hbc
    · intro a b
      rw [Bool.or_eq_true, decide_eq_true_eq, decide_eq_true_eq]
      exact String.le_total a.identifier b.identifier
  exact hsorted.imp fun hle => of_decide_eq_true hle

/-- Sorting the entries of a partition gives them in their order, in whatever order they were listed. -/
theorem sorted_of_perm {part : Partition} {listing : List Entry} (h : listing.Perm part.entries) :
    sorted listing = part.entries := by
  have hperm : (sorted listing).Perm part.entries := (List.mergeSort_perm listing _).trans h
  have hascending : part.entries.Pairwise fun a b => a.identifier ≤ b.identifier :=
    part.ascending.imp fun hlt => Std.le_of_lt hlt
  refine hperm.eq_of_pairwise ?_ (pairwise_sorted listing) hascending
  intro a b ha hb hab hba
  exact eq_of_identifier_eq (hperm.mem_iff.mp ha) hb (String.le_antisymm hab hba)

end Partition

/-- Whether these are the entries of that criticality, each of them once, in whatever order. -/
def ExtensionMap.Lists (map : ExtensionMap) (critical : Bool) (listing : List Partition.Entry) : Prop :=
  listing.Nodup ∧ ∀ entry, entry ∈ listing ↔ map.lookup entry.identifier = some (critical, entry.value)

namespace ExtensionSet

variable {set other : ExtensionSet}

private theorem mem_part_entries {critical : Bool} {entry : Partition.Entry} :
    entry ∈ (set.part critical).entries ↔ set.toMap.lookup entry.identifier = some (critical, entry.value) := by
  have hvalue : (set.part critical).value? entry.identifier = some entry.value ↔ entry ∈ (set.part critical).entries :=
    Partition.value?_eq_some_iff
  rw [← hvalue, part_value?, lookup_toMap]
  cases set.find? entry.identifier with
  | none => simp
  | some extension => simp [Option.filter_some, Extension.entry]

/-- The listings of the finite map of a set are the entries of a partition, in any order. -/
theorem lists_iff_perm {critical : Bool} {listing : List Partition.Entry} :
    set.toMap.Lists critical listing ↔ listing.Perm (set.part critical).entries := by
  have hnodup : (set.part critical).entries.Nodup :=
    (set.part critical).identifier_ne.imp fun hne heq => hne (congrArg _ heq)
  constructor
  · rintro ⟨hlisting, hmem⟩
    refine (List.perm_ext_iff_of_nodup hlisting hnodup).mpr fun entry => ?_
    rw [hmem, mem_part_entries]
  · intro hperm
    refine ⟨hperm.nodup_iff.mpr hnodup, fun entry => ?_⟩
    rw [hperm.mem_iff, mem_part_entries]

/-! ### Sets with the same answers -/

/-- Whether two sets give the same answers for every identifier. -/
structure SameContent (set other : ExtensionSet) : Prop where
  contains : ∀ identifier, set.contains identifier = other.contains identifier
  isCritical : ∀ identifier, set.isCritical identifier = other.isCritical identifier
  value? : ∀ identifier, set.value? identifier = other.value? identifier

/-- What a set has for an identifier is told by its answers. -/
private theorem find?_of_answers (set : ExtensionSet) (identifier : String) :
    set.find? identifier = (set.value? identifier).map (⟨identifier, set.isCritical identifier, ·⟩) := by
  unfold find? value? isCritical Partition.contains
  cases set.criticalPart.value? identifier with
  | some value => rfl
  | none => rfl

theorem sameContent_iff : set.SameContent other ↔ set = other := by
  constructor
  · intro h
    apply ext_find?
    intro identifier
    rw [find?_of_answers, find?_of_answers, h.isCritical, h.value?]
  · rintro rfl
    exact ⟨fun _ => rfl, fun _ => rfl, fun _ => rfl⟩

private theorem toList_eq_iff : set.toList = other.toList ↔ set.SameContent other := by
  rw [sameContent_iff]
  constructor
  · intro h
    rw [← insertAll_toList set, h, insertAll_toList]
  · rintro rfl
    rfl

theorem load_of_save {bytes : List UInt8} (h : set.save = .ok bytes) : load bytes = .ok set := by
  obtain ⟨hcritical, hnonCritical, rfl⟩ := save_eq_ok h
  have hload := load_storedBytes hcritical hnonCritical []
  rwa [List.append_nil, ofEntries_entries] at hload

/-- The stored form tells the set. -/
theorem eq_of_save {bytes : List UInt8} (h : set.save = .ok bytes) (hother : other.save = .ok bytes) : set = other := by
  have hload := load_of_save h
  rw [load_of_save hother] at hload
  exact (Except.ok.inj hload).symm

/-! ### Additions in any order -/

/-- Extensions with different identifiers may be added in any order. -/
private theorem insertAll_of_perm (set : ExtensionSet) {extensions others : List Extension}
    (hnodup : (extensions.map (·.identifier)).Nodup) (hperm : extensions.Perm others) :
    set.insertAll extensions = set.insertAll others := by
  apply ext_find?
  intro identifier
  have hunique : ∀ a ∈ extensions, ∀ b ∈ extensions, a.identifier = b.identifier → a = b :=
    fun a ha b hb => List.inj_on_of_nodup_map hnodup ha hb
  have hfind : extensions.reverse.find? (·.identifier = identifier) =
      others.reverse.find? (·.identifier = identifier) := by
    ext extension
    rw [find?_key_eq_some_iff Extension.identifier, find?_key_eq_some_iff Extension.identifier, List.mem_reverse,
      List.mem_reverse, hperm.mem_iff]
    · intro a ha b hb
      rw [List.mem_reverse, ← hperm.mem_iff] at ha hb
      exact hunique a ha b hb
    · intro a ha b hb
      rw [List.mem_reverse] at ha hb
      exact hunique a ha b hb
  rw [find?_insertAll, find?_insertAll, hfind]

private theorem run_map_insert (session : Session) (extensions : List Extension) :
    (session.run (extensions.map .insert)).current = session.current.insertAll extensions := by
  induction extensions generalizing session with
  | nil => rfl
  | cons extension extensions ih =>
    have hcons : session.run (.insert extension :: extensions.map .insert) =
        (session.after (.insert extension)).run (extensions.map .insert) := rfl
    rw [List.map_cons, hcons, ih]
    rfl

private theorem toMap_run (operations : List Operation) :
    (Session.start.run operations).current.toMap = (MapSession.start.run operations).current :=
  congrArg MapSession.current (Session.run_maps Session.start operations)

/-- After any two runs, sets with the same answers are listed, stored, encoded and described alike, and only they are
listed or stored alike; extensions with different identifiers that are added last may be added in any order. What is
listed and stored is what comes of sorting the entries of the finite map that the same run leaves, in whatever order it
lists them. -/
theorem output_canonical (operations : List Operation) :
    let set := (Session.start.run operations).current
    let map := (MapSession.start.run operations).current
    (∀ operations' : List Operation,
      let other := (Session.start.run operations').current
      (set.SameContent other → set.save = other.save ∧ set.toDer = other.toDer ∧ set.toList = other.toList ∧
        ∀ style, set.describe style = other.describe style) ∧
      (set.toList = other.toList → set.SameContent other) ∧
      ∀ bytes, set.save = .ok bytes → other.save = .ok bytes → set.SameContent other) ∧
    (∀ extensions others : List Extension, (extensions.map (·.identifier)).Nodup → extensions.Perm others →
      (Session.start.run (operations ++ extensions.map .insert)).current.save =
        (Session.start.run (operations ++ others.map .insert)).current.save) ∧
    ∀ critical nonCritical, map.Lists true critical → map.Lists false nonCritical →
      set.toList = (Partition.sorted critical).map (·.extension true) ++
        (Partition.sorted nonCritical).map (·.extension false) ∧
      ∀ bytes, set.save = .ok bytes →
        bytes = storedBytes (Partition.sorted critical) (Partition.sorted nonCritical) := by
  intro set map
  refine ⟨?_, ?_, ?_⟩
  · intro operations' other
    refine ⟨?_, toList_eq_iff.mp, ?_⟩
    · intro h
      rw [sameContent_iff.mp h]
      exact ⟨rfl, rfl, rfl, fun _ => rfl⟩
    · intro bytes h hother
      exact sameContent_iff.mpr (eq_of_save h hother)
  · intro extensions others hnodup hperm
    have hrun (added : List Extension) :
        (Session.start.run (operations ++ added.map .insert)).current = set.insertAll added := by
      rw [Session.run, List.foldl_append]
      exact run_map_insert _ added
    rw [hrun, hrun, insertAll_of_perm set hnodup hperm]
  · intro critical nonCritical hcritical hnonCritical
    have hmap : set.toMap = map := toMap_run operations
    rw [← hmap, lists_iff_perm] at hcritical hnonCritical
    have hsorted : Partition.sorted critical = set.criticalPart.entries := Partition.sorted_of_perm hcritical
    have hsorted' : Partition.sorted nonCritical = set.nonCriticalPart.entries := Partition.sorted_of_perm hnonCritical
    rw [hsorted, hsorted']
    exact ⟨rfl, fun bytes h => (save_eq_ok h).2.2⟩

/-- A detour to key usage and basic constraints, which makes them critical and adds a key identifier for a while. -/
def detour : List Operation :=
  [.insert ⟨"2.5.29.19", true, [4, 2, 48, 0]⟩, .insert ⟨"2.5.29.14", false, [4, 2, 4, 0]⟩,
    .insert ⟨"2.5.29.15", true, [4, 0]⟩, .toggle "2.5.29.19", .toggle "2.5.29.15", .erase "2.5.29.14"]

theorem output_canonical_detour :
    let usage : Extension := ⟨"2.5.29.15", false, [4, 0]⟩
    let constraints : Extension := ⟨"2.5.29.19", false, [4, 2, 48, 0]⟩
    let set := (Session.start.run [.insert usage, .insert constraints]).current
    let other := (Session.start.run detour).current
    let map := (MapSession.start.run detour).current
    let listing : List Partition.Entry := [⟨"2.5.29.19", [4, 2, 48, 0]⟩, ⟨"2.5.29.15", [4, 0]⟩]
    set.SameContent other ∧ set.save = other.save ∧ set.toDer = other.toDer ∧ set.toList = other.toList ∧
      set.save = (Session.start.run [.insert constraints, .insert usage]).current.save ∧
      map.Lists true [] ∧ map.Lists false listing ∧
      other.toList = (Partition.sorted []).map (·.extension true) ++
        (Partition.sorted listing).map (·.extension false) := by
  intro usage constraints set other map listing
  have hcontent : set.SameContent other := sameContent_iff.mpr (by decide)
  have hnodup : ([usage, constraints].map (·.identifier)).Nodup := by decide
  have hmap : other.toMap = map := toMap_run detour
  have hcritical : map.Lists true [] := hmap ▸ lists_iff_perm.mpr (by decide)
  have hnonCritical : map.Lists false listing := hmap ▸ lists_iff_perm.mpr (by decide)
  obtain ⟨hsave, htoDer, htoList, -⟩ := ((output_canonical [.insert usage, .insert constraints]).1 detour).1 hcontent
  have hadded := (output_canonical []).2.1 [usage, constraints] [constraints, usage] hnodup (.swap _ _ _)
  have hsorted := ((output_canonical detour).2.2 [] listing hcritical hnonCritical).1
  exact ⟨hcontent, hsave, htoDer, htoList, hadded, hcritical, hnonCritical, hsorted⟩

end ExtensionSet

end CertExtensions
