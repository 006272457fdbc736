import CertExtensions.ExtensionSet.Basic
import Mathlib.Data.List.Pairwise
import Mathlib.Tactic.ByContra

/-!
# What a set contains

A set is determined by the extension that it has for each identifier (`ext_find?`), every query is an answer about that
extension, and `mem_toList_iff` ties the list of extensions to it. The list has each identifier once
(`nodup_identifiers_toList`), critical extensions in front and each partition in ascending order (`pairwise_toList`);
adding the extensions of the list to the empty set gives the set again (`insertAll_toList`).
-/

namespace CertExtensions

attribute [ext] Extension

/-- In a list where one item at most has the key, that is the one to be found. -/
theorem find?_key_eq_some_iff {α : Type} (key : α → String) {items : List α}
    (h : ∀ a ∈ items, ∀ b ∈ items, key a = key b → a = b) {k : String} {item : α} :
    items.find? (key · = k) = some item ↔ item ∈ items ∧ key item = k := by
  constructor
  · intro hfind
    exact ⟨List.mem_of_find?_eq_some hfind, by simpa using List.find?_some hfind⟩
  · rintro ⟨hmem, hkey⟩
    cases hfind : items.find? (key · = k) with
    | none =>
      have := List.find?_eq_none.mp hfind item hmem
      exact absurd hkey (by simpa using this)
    | some found =>
      have hfound : key found = k := by simpa using List.find?_some hfind
      rw [h found (List.mem_of_find?_eq_some hfind) item hmem (hfound.trans hkey.symm)]

/-! ### Partitions -/

namespace Partition

variable {part other : Partition}

theorem identifier_ne (part : Partition) : part.entries.Pairwise fun a b => a.identifier ≠ b.identifier := by
  refine part.ascending.imp ?_
  intro a b hlt heq
  rw [heq] at hlt
  exact String.lt_irrefl _ hlt

theorem eq_of_identifier_eq {a b : Entry} (ha : a ∈ part.entries) (hb : b ∈ part.entries)
    (h : a.identifier = b.identifier) : a = b := by
  by_contra hne
  have : Std.Symm fun a b : Entry => a.identifier ≠ b.identifier := ⟨fun _ _ h => h.symm⟩
  exact part.identifier_ne.forall ha hb hne h

theorem value?_eq_some_iff {identifier : String} {value : List UInt8} :
    part.value? identifier = some value ↔ ⟨identifier, value⟩ ∈ part.entries := by
  have hunique : ∀ entry, part.entries.find? (·.identifier = identifier) = some entry ↔
      entry ∈ part.entries ∧ entry.identifier = identifier :=
    fun _ => find?_key_eq_some_iff Entry.identifier fun _ ha _ hb => eq_of_identifier_eq ha hb
  rw [value?, Option.map_eq_some_iff]
  constructor
  · rintro ⟨entry, hfind, rfl⟩
    obtain ⟨hmem, rfl⟩ := (hunique entry).mp hfind
    exact hmem
  · intro hmem
    exact ⟨_, (hunique _).mpr ⟨hmem, rfl⟩, rfl⟩

private theorem mem_map_extension {critical : Bool} {extension : Extension} :
    extension ∈ part.entries.map (·.extension critical) ↔
      part.value? extension.identifier = some extension.value ∧ extension.critical = critical := by
  rw [List.mem_map, value?_eq_some_iff]
  constructor
  · rintro ⟨entry, hentry, rfl⟩
    exact ⟨hentry, rfl⟩
  · rintro ⟨hentry, rfl⟩
    exact ⟨_, hentry, rfl⟩

/-- Two partitions that have the same value for each identifier are equal. -/
private theorem ext_value? (h : ∀ identifier, part.value? identifier = other.value? identifier) : part = other := by
  have hmem : ∀ entry, entry ∈ part.entries ↔ entry ∈ other.entries := by
    intro entry
    rw [← value?_eq_some_iff, ← value?_eq_some_iff, h]
  have hnodup : ∀ p : Partition, p.entries.Nodup :=
    fun p => p.identifier_ne.imp fun hne heq => hne (congrArg _ heq)
  -- the same entries, and ascending: there is one such order only
  have hperm := (List.perm_ext_iff_of_nodup (hnodup part) (hnodup other)).mpr hmem
  have hentries : part.entries = other.entries := by
    refine hperm.eq_of_pairwise ?_ part.ascending other.ascending
    intro a b _ _ hab hba
    exact absurd (String.lt_trans hab hba) (String.lt_irrefl _)
  cases part
  cases other
  simpa using hentries

end Partition

namespace ExtensionSet

variable {set other : ExtensionSet}

/-! ### One extension for each identifier -/

/-- The partition of the extensions with the criticality. -/
def part (set : ExtensionSet) : Bool → Partition
  | true => set.criticalPart
  | false => set.nonCriticalPart

theorem part_value? (set : ExtensionSet) (critical : Bool) (identifier : String) :
    (set.part critical).value? identifier =
      ((set.find? identifier).filter (·.critical == critical)).map (·.value) := by
  unfold find?
  -- the partition that `find?` looks into first cannot hide a value in the other one
  rcases set.disjoint identifier with h | h
  · rw [h]
    cases critical with
    | true => rw [part, h]; cases set.nonCriticalPart.value? identifier <;> rfl
    | false => rw [part]; cases set.nonCriticalPart.value? identifier <;> rfl
  · rw [h]
    cases critical with
    | true => rw [part]; cases set.criticalPart.value? identifier <;> rfl
    | false => rw [part, h]; cases set.criticalPart.value? identifier <;> rfl

theorem identifier_of_find? {identifier : String} {extension : Extension}
    (h : set.find? identifier = some extension) : extension.identifier = identifier := by
  unfold find? at h
  cases hcritical : set.criticalPart.value? identifier with
  | some value =>
    rw [hcritical] at h
    cases h
    rfl
  | none =>
    rw [hcritical] at h
    obtain ⟨value, -, rfl⟩ := Option.map_eq_some_iff.mp h
    rfl

/-- Two sets that have the same extension for each identifier are equal. -/
theorem ext_find? (h : ∀ identifier, set.find? identifier = other.find? identifier) : set = other := by
  have hpart : ∀ critical, set.part critical = other.part critical := by
    intro critical
    apply Partition.ext_value?
    intro identifier
    rw [part_value?, part_value?, h]
  have hcritical := hpart true
  have hnonCritical := hpart false
  cases set
  cases other
  simpa [part] using And.intro hcritical hnonCritical

/-! ### Queries -/

theorem value?_eq (set : ExtensionSet) (identifier : String) :
    set.value? identifier = (set.find? identifier).map (·.value) := by
  unfold value? find?
  cases set.criticalPart.value? identifier with
  | some value => rfl
  | none => cases set.nonCriticalPart.value? identifier <;> rfl

theorem contains_eq (set : ExtensionSet) (identifier : String) :
    set.contains identifier = (set.find? identifier).isSome := by
  unfold contains Partition.contains find?
  cases set.criticalPart.value? identifier with
  | some value => rfl
  | none => cases set.nonCriticalPart.value? identifier <;> rfl

theorem isCritical_eq (set : ExtensionSet) (identifier : String) :
    set.isCritical identifier = (set.find? identifier).any (·.critical) := by
  unfold isCritical Partition.contains find?
  cases set.criticalPart.value? identifier with
  | some value => rfl
  | none => cases set.nonCriticalPart.value? identifier <;> rfl

/-! ### The list of extensions -/

theorem mem_map_part {critical : Bool} {extension : Extension} :
    extension ∈ (set.part critical).entries.map (·.extension critical) ↔
      set.find? extension.identifier = some extension ∧ extension.critical = critical := by
  rw [Partition.mem_map_extension]
  refine and_congr_left fun hcritical => ?_
  rw [part_value?, Option.map_eq_some_iff]
  constructor
  · rintro ⟨found, hfilter, hvalue⟩
    obtain ⟨hfind, hfound⟩ := Option.filter_eq_some_iff.mp hfilter
    rw [hfind, Extension.ext (identifier_of_find? hfind) ((eq_of_beq hfound).trans hcritical.symm) hvalue]
  · intro hfind
    exact ⟨extension, Option.filter_eq_some_iff.mpr ⟨hfind, beq_iff_eq.mpr hcritical⟩, rfl⟩

private theorem mem_critical {extension : Extension} :
    extension ∈ set.critical ↔ set.find? extension.identifier = some extension ∧ extension.critical = true :=
  mem_map_part

private theorem mem_nonCritical {extension : Extension} :
    extension ∈ set.nonCritical ↔ set.find? extension.identifier = some extension ∧ extension.critical = false :=
  mem_map_part

/-- A set lists the extensions that it has for their identifiers. -/
theorem mem_toList_iff {extension : Extension} :
    extension ∈ set.toList ↔ set.find? extension.identifier = some extension := by
  rw [toList, List.mem_append, mem_critical, mem_nonCritical, ← and_or_left]
  cases extension.critical <;> simp

theorem find?_eq_some_iff {identifier : String} {extension : Extension} :
    set.find? identifier = some extension ↔ extension ∈ set.toList ∧ extension.identifier = identifier := by
  rw [mem_toList_iff]
  constructor
  · intro hfind
    obtain rfl := identifier_of_find? hfind
    exact ⟨hfind, rfl⟩
  · rintro ⟨hfind, rfl⟩
    exact hfind

theorem eq_of_identifier_eq {a b : Extension} (ha : a ∈ set.toList) (hb : b ∈ set.toList)
    (h : a.identifier = b.identifier) : a = b := by
  rw [mem_toList_iff] at ha hb
  rw [h, hb] at ha
  exact (Option.some.inj ha).symm

private theorem pairwise_map_extension (part : Partition) (critical : Bool) :
    (part.entries.map (·.extension critical)).Pairwise (·.identifier < ·.identifier) :=
  List.pairwise_map.mpr part.ascending

/-- Critical extensions come first; in each partition identifiers ascend. -/
theorem pairwise_toList (set : ExtensionSet) :
    set.toList.Pairwise fun a b =>
      a.critical = true ∧ b.critical = false ∨ a.critical = b.critical ∧ a.identifier < b.identifier := by
  rw [toList, List.pairwise_append]
  refine ⟨?_, ?_, ?_⟩
  · refine (pairwise_map_extension set.criticalPart true).imp_of_mem ?_
    intro a b ha hb hlt
    exact .inr ⟨(mem_critical.mp ha).2.trans (mem_critical.mp hb).2.symm, hlt⟩
  · refine (pairwise_map_extension set.nonCriticalPart false).imp_of_mem ?_
    intro a b ha hb hlt
    exact .inr ⟨(mem_nonCritical.mp ha).2.trans (mem_nonCritical.mp hb).2.symm, hlt⟩
  · intro a ha b hb
    exact .inl ⟨(mem_critical.mp ha).2, (mem_nonCritical.mp hb).2⟩

theorem nodup_identifiers_toList (set : ExtensionSet) : (set.toList.map (·.identifier)).Nodup := by
  refine List.pairwise_map.mpr (set.pairwise_toList.imp_of_mem ?_)
  intro a b ha hb hab heq
  -- equal identifiers make the two extensions one, which stands in front of itself
  obtain rfl := eq_of_identifier_eq ha hb heq
  rcases hab with ⟨htrue, hfalse⟩ | ⟨-, hlt⟩
  · rw [htrue] at hfalse
    exact absurd hfalse (by decide)
  · exact String.lt_irrefl _ hlt

theorem length_toList (set : ExtensionSet) : set.toList.length = set.size := by
  simp only [toList, critical, nonCritical, size, Partition.size, List.length_append, List.length_map]

/-! ### Turning criticality around twice -/

theorem toggle_toggle (set : ExtensionSet) (identifier : String) :
    (set.toggle identifier).toggle identifier = set := by
  apply ext_find?
  intro other
  rw [find?_toggle, find?_toggle]
  split
  · rw [Option.map_map]
    have htoggled : Extension.toggled ∘ Extension.toggled = id := by
      funext extension
      simp only [Function.comp, Extension.toggled, Bool.not_not, id]
    rw [htoggled, Option.map_id, id]
  · rfl

/-! ### Adding many extensions -/

@[simp] theorem find?_empty (identifier : String) : empty.find? identifier = none := rfl

theorem insertAll_append (set : ExtensionSet) (front back : List Extension) :
    set.insertAll (front ++ back) = (set.insertAll front).insertAll back :=
  List.foldl_append

/-- Of the extensions with an identifier the one that was added last counts. -/
theorem find?_insertAll (set : ExtensionSet) (extensions : List Extension) (identifier : String) :
    (set.insertAll extensions).find? identifier =
      (extensions.reverse.find? (·.identifier = identifier)).or (set.find? identifier) := by
  induction extensions generalizing set with
  | nil => rfl
  | cons extension extensions ih =>
    have hcons : set.insertAll (extension :: extensions) = (set.insert extension).insertAll extensions := rfl
    rw [hcons, ih, find?_insert, List.reverse_cons, List.find?_append, Option.or_assoc]
    congr 1
    by_cases h : extension.identifier = identifier
    · subst h
      simp
    · simp [h, Ne.symm h]

/-- A set is what adding its extensions to the empty set gives, in whatever order they are added. -/
private theorem insertAll_eq_of_mem_iff {extensions : List Extension}
    (h : ∀ extension, extension ∈ extensions ↔ extension ∈ set.toList) : empty.insertAll extensions = set := by
  apply ext_find?
  intro identifier
  rw [find?_insertAll, find?_empty, Option.or_none]
  ext extension
  rw [find?_eq_some_iff, find?_key_eq_some_iff Extension.identifier, List.mem_reverse, h]
  intro a ha b hb
  rw [List.mem_reverse, h] at ha hb
  exact eq_of_identifier_eq ha hb

theorem insertAll_toList (set : ExtensionSet) : empty.insertAll set.toList = set :=
  insertAll_eq_of_mem_iff fun _ => Iff.rfl

end ExtensionSet

end CertExtensions
