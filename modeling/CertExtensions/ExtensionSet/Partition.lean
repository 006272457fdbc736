import CertExtensions.Extension.Basic

/-!
# Partitions

Values by identifier: a set keeps those of its critical extensions and those of its other extensions in a partition
each. Entries stand in ascending order of their identifiers, so that partitions with the same values are equal. Main
statements:

* `value?_insert`, `value?_erase`, `value?_replace`: what each operation does to the value of an identifier;
* `Disjoint.insert`: partitions without a common identifier stay so where the other one lacks the new identifier.
-/

namespace CertExtensions

namespace Partition

structure Entry where
  identifier : String
  value : List UInt8
  deriving DecidableEq, Repr

/-- The extension of an entry in a partition of that criticality. -/
def Entry.extension (critical : Bool) (entry : Entry) : Extension :=
  ⟨entry.identifier, critical, entry.value⟩

end Partition

structure Partition where
  entries : List Partition.Entry
  ascending : entries.Pairwise (·.identifier < ·.identifier)
  deriving DecidableEq

namespace Partition

/-! ### Queries -/

def value? (part : Partition) (identifier : String) : Option (List UInt8) :=
  (part.entries.find? (·.identifier = identifier)).map (·.value)

def contains (part : Partition) (identifier : String) : Bool :=
  (part.value? identifier).isSome

def size (part : Partition) : Nat :=
  part.entries.length

/-! ### Insertion -/

def empty : Partition := ⟨[], .nil⟩

/-- Puts an entry in its place among others, in the place of one with the same identifier. -/
def insertEntry (entry : Entry) : List Entry → List Entry
  | [] => [entry]
  | other :: rest =>
    if entry.identifier = other.identifier then entry :: rest
    else if entry.identifier < other.identifier then entry :: other :: rest
    else other :: insertEntry entry rest

private theorem mem_insertEntry {entry x : Entry} {entries : List Entry} (h : x ∈ insertEntry entry entries) :
    x = entry ∨ x ∈ entries := by
  induction entries with
  | nil => simpa [insertEntry] using h
  | cons other rest ih =>
    simp only [insertEntry] at h
    split at h
    · rcases List.mem_cons.mp h with h | h
      · exact .inl h
      · exact .inr (List.mem_cons_of_mem _ h)
    · split at h
      · exact List.mem_cons.mp h
      · rcases List.mem_cons.mp h with h | h
        · exact .inr (h ▸ List.mem_cons_self)
        · exact (ih h).imp id (List.mem_cons_of_mem _)

private theorem ascending_insertEntry (entry : Entry) {entries : List Entry}
    (h : entries.Pairwise (·.identifier < ·.identifier)) :
    (insertEntry entry entries).Pairwise (·.identifier < ·.identifier) := by
  induction entries with
  | nil => simp [insertEntry]
  | cons other rest ih =>
    obtain ⟨hall, hrest⟩ := List.pairwise_cons.mp h
    simp only [insertEntry]
    split
    · next heq => exact List.pairwise_cons.mpr ⟨fun x hx => heq ▸ hall x hx, hrest⟩
    · next hne =>
      split
      · next hlt =>
        refine List.pairwise_cons.mpr ⟨fun x hx => ?_, h⟩
        rcases List.mem_cons.mp hx with rfl | hx
        · exact hlt
        · exact String.lt_trans hlt (hall x hx)
      · next hnlt =>
        have hlt : other.identifier < entry.identifier :=
          Std.lt_of_le_of_ne (Std.not_lt.mp hnlt) (Ne.symm hne)
        refine List.pairwise_cons.mpr ⟨fun x hx => ?_, ih hrest⟩
        rcases mem_insertEntry hx with rfl | hx
        · exact hlt
        · exact hall x hx

/-- Gives the identifier a value, whether or not it has one. -/
def insert (part : Partition) (identifier : String) (value : List UInt8) : Partition :=
  ⟨insertEntry ⟨identifier, value⟩ part.entries, ascending_insertEntry _ part.ascending⟩

/-! ### Removal and change -/

/-- Takes the value of the identifier away, if it has one. -/
def erase (part : Partition) (identifier : String) : Partition :=
  ⟨part.entries.filter (·.identifier ≠ identifier), part.ascending.filter _⟩

/-- The entry with the new value, if it has the identifier. -/
def replaceEntry (identifier : String) (value : List UInt8) (entry : Entry) : Entry :=
  if entry.identifier = identifier then { entry with value } else entry

private theorem identifier_replaceEntry (identifier : String) (value : List UInt8) (entry : Entry) :
    (replaceEntry identifier value entry).identifier = entry.identifier := by
  unfold replaceEntry
  split <;> rfl

/-- Gives the identifier another value, if it has one. -/
def replace (part : Partition) (identifier : String) (value : List UInt8) : Partition where
  entries := part.entries.map (replaceEntry identifier value)
  ascending := List.pairwise_map.mpr <| part.ascending.imp fun hlt => by
    simpa only [identifier_replaceEntry] using hlt

/-! ### What the operations do to the value of an identifier -/

@[simp] theorem value?_empty (identifier : String) : empty.value? identifier = none := rfl

theorem value?_insert (part : Partition) (inserted : String) (value : List UInt8) (identifier : String) :
    (part.insert inserted value).value? identifier =
      if identifier = inserted then some value else part.value? identifier := by
  obtain ⟨entries, ascending⟩ := part
  simp only [insert, value?]
  induction entries with
  | nil => by_cases h : identifier = inserted <;> simp [insertEntry, h, eq_comm]
  | cons other rest ih =>
    simp only [insertEntry]
    split
    · next heq => by_cases h : identifier = other.identifier <;> simp [heq, h, eq_comm]
    · next hne =>
      split
      · by_cases h : identifier = inserted <;> simp [h, eq_comm]
      · rw [List.find?_cons, List.find?_cons]
        by_cases h : other.identifier = identifier
        · have : identifier ≠ inserted := fun he => hne (he.symm.trans h.symm)
          simp [h, this]
        · simpa [h] using ih (List.pairwise_cons.mp ascending).2

theorem value?_erase (part : Partition) (erased identifier : String) :
    (part.erase erased).value? identifier = if identifier = erased then none else part.value? identifier := by
  simp only [erase, value?, List.find?_filter]
  split
  · next h => subst h; simp
  · next h =>
    congr 2
    funext entry
    by_cases he : entry.identifier = identifier
    · simp [he, h]
    · simp [he]

theorem value?_replace (part : Partition) (replaced : String) (value : List UInt8) (identifier : String) :
    (part.replace replaced value).value? identifier =
      (part.value? identifier).map fun old => if identifier = replaced then value else old := by
  have hsame : ((fun entry => decide (entry.identifier = identifier)) ∘ replaceEntry replaced value) =
      fun entry => decide (entry.identifier = identifier) := by
    funext entry
    simp only [Function.comp, identifier_replaceEntry]
  simp only [replace, value?, List.find?_map, hsame, Option.map_map]
  cases hfind : part.entries.find? (·.identifier = identifier) with
  | none => rfl
  | some entry =>
    have hid : entry.identifier = identifier := by simpa using List.find?_some hfind
    simp only [Option.map_some, Function.comp, replaceEntry, hid]
    split <;> rfl

/-! ### Partitions without a common identifier -/

/-- No identifier has a value in both partitions. -/
def Disjoint (part other : Partition) : Prop :=
  ∀ identifier, part.value? identifier = none ∨ other.value? identifier = none

namespace Disjoint

variable {part other : Partition}

theorem symm (h : part.Disjoint other) : other.Disjoint part :=
  fun identifier => (h identifier).symm

theorem erase (h : part.Disjoint other) (identifier : String) : (part.erase identifier).Disjoint other := by
  intro x
  rw [value?_erase]
  split
  · exact .inl rfl
  · exact h x

theorem insert (h : part.Disjoint other) {identifier : String} (hother : other.value? identifier = none)
    (value : List UInt8) : (part.insert identifier value).Disjoint other := by
  intro x
  rw [value?_insert]
  split
  · next heq => exact .inr (heq ▸ hother)
  · exact h x

theorem replace (h : part.Disjoint other) (identifier : String) (value : List UInt8) :
    (part.replace identifier value).Disjoint other := by
  intro x
  rw [value?_replace, Option.map_eq_none_iff]
  exact h x

end Disjoint

end Partition

end CertExtensions
