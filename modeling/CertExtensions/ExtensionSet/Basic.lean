import CertExtensions.ExtensionSet.Partition

/-!
# Sets of extensions

A set keeps its critical extensions and its other extensions in a partition each, and no identifier is in both. Main
statements:

* `find?_insert`, `find?_erase`, `find?_toggle`, `find?_replace`: what each operation does to the extension of an
  identifier;
* `toList`: the critical extensions come first, each partition in ascending order.
-/

namespace CertExtensions

def Extension.toggled (extension : Extension) : Extension :=
  { extension with critical := !extension.critical }

structure ExtensionSet where
  criticalPart : Partition
  nonCriticalPart : Partition
  disjoint : criticalPart.Disjoint nonCriticalPart
  deriving DecidableEq

namespace ExtensionSet

/-! ### Queries -/

def find? (set : ExtensionSet) (identifier : String) : Option Extension :=
  match set.criticalPart.value? identifier with
  | some value => some ⟨identifier, true, value⟩
  | none => (set.nonCriticalPart.value? identifier).map (⟨identifier, false, ·⟩)

def value? (set : ExtensionSet) (identifier : String) : Option (List UInt8) :=
  (set.criticalPart.value? identifier).or (set.nonCriticalPart.value? identifier)

def contains (set : ExtensionSet) (identifier : String) : Bool :=
  set.criticalPart.contains identifier || set.nonCriticalPart.contains identifier

/-- Whether the set has a critical extension with the identifier. -/
def isCritical (set : ExtensionSet) (identifier : String) : Bool :=
  set.criticalPart.contains identifier

/-- The number of extensions in both partitions. -/
def size (set : ExtensionSet) : Nat :=
  set.criticalPart.size + set.nonCriticalPart.size

def isEmpty (set : ExtensionSet) : Bool :=
  set.size == 0

def critical (set : ExtensionSet) : List Extension :=
  set.criticalPart.entries.map (·.extension true)

/-- The other extensions, in ascending order. -/
def nonCritical (set : ExtensionSet) : List Extension :=
  set.nonCriticalPart.entries.map (·.extension false)

/-- All extensions, the critical ones first. -/
def toList (set : ExtensionSet) : List Extension :=
  set.critical ++ set.nonCritical

/-- Whether a critical extension is refused; none ever is. -/
def hasUnsupportedCritical (_ : ExtensionSet) : Bool :=
  false

/-! ### Removal -/

def empty : ExtensionSet := ⟨.empty, .empty, fun _ => .inl rfl⟩

instance : EmptyCollection ExtensionSet := ⟨empty⟩

instance : Inhabited ExtensionSet := ⟨empty⟩

/-- Removes the extension with the identifier, if there is one. -/
def erase (set : ExtensionSet) (identifier : String) : ExtensionSet where
  criticalPart := set.criticalPart.erase identifier
  nonCriticalPart := set.nonCriticalPart.erase identifier
  disjoint := ((set.disjoint.erase identifier).symm.erase identifier).symm

/-! ### Insertion -/

/-- Adds an extension that the set does not have yet. -/
def insertNew (set : ExtensionSet) (extension : Extension)
    (hcritical : set.criticalPart.value? extension.identifier = none)
    (hnonCritical : set.nonCriticalPart.value? extension.identifier = none) : ExtensionSet :=
  if extension.critical then
    { set with
      criticalPart := set.criticalPart.insert extension.identifier extension.value
      disjoint := set.disjoint.insert hnonCritical extension.value }
  else
    { set with
      nonCriticalPart := set.nonCriticalPart.insert extension.identifier extension.value
      disjoint := (set.disjoint.symm.insert hcritical extension.value).symm }

/-- Adds an extension; one with the same identifier is removed first, critical or not. -/
def insert (set : ExtensionSet) (extension : Extension) : ExtensionSet :=
  (set.erase extension.identifier).insertNew extension
    (by simp only [erase, Partition.value?_erase, ↓reduceIte])
    (by simp only [erase, Partition.value?_erase, ↓reduceIte])

/-- Adds extensions, the first one first. -/
def insertAll (set : ExtensionSet) (extensions : List Extension) : ExtensionSet :=
  extensions.foldl insert set

/-! ### Change -/

/-- Moves the extension with the identifier to the other partition, if there is one. -/
def toggle (set : ExtensionSet) (identifier : String) : ExtensionSet :=
  match set.criticalPart.value? identifier with
  | some value =>
    { criticalPart := set.criticalPart.erase identifier
      nonCriticalPart := set.nonCriticalPart.insert identifier value
      disjoint := ((set.disjoint.erase identifier).symm.insert
        (by simp only [Partition.value?_erase, ↓reduceIte]) value).symm }
  | none =>
    match set.nonCriticalPart.value? identifier with
    | some value =>
      { criticalPart := set.criticalPart.insert identifier value
        nonCriticalPart := set.nonCriticalPart.erase identifier
        disjoint := (set.disjoint.symm.erase identifier).symm.insert
          (by simp only [Partition.value?_erase, ↓reduceIte]) value }
    | none => set

/-- Gives the extension with the identifier another value, if there is one. -/
def replace (set : ExtensionSet) (identifier : String) (value : List UInt8) : ExtensionSet :=
  if set.criticalPart.contains identifier then
    { set with
      criticalPart := set.criticalPart.replace identifier value
      disjoint := set.disjoint.replace identifier value }
  else
    { set with
      nonCriticalPart := set.nonCriticalPart.replace identifier value
      disjoint := (set.disjoint.symm.replace identifier value).symm }

/-- Replaces the values of some identifiers, the first one first. -/
def replaceAll (set : ExtensionSet) (entries : List Partition.Entry) : ExtensionSet :=
  entries.foldl (fun changed entry => changed.replace entry.identifier entry.value) set

/-! ### What the operations do to the extension of an identifier -/

theorem find?_erase (set : ExtensionSet) (erased identifier : String) :
    (set.erase erased).find? identifier = if identifier = erased then none else set.find? identifier := by
  by_cases h : identifier = erased <;> simp [find?, erase, Partition.value?_erase, h]

theorem find?_insert (set : ExtensionSet) (extension : Extension) (identifier : String) :
    (set.insert extension).find? identifier =
      if identifier = extension.identifier then some extension else set.find? identifier := by
  obtain ⟨inserted, critical, value⟩ := extension
  by_cases h : identifier = inserted
  · subst h
    cases critical <;> simp [insert, insertNew, find?, erase, Partition.value?_insert, Partition.value?_erase]
  · cases critical <;>
      simp [insert, insertNew, find?, erase, Partition.value?_insert, Partition.value?_erase, h]

theorem find?_toggle (set : ExtensionSet) (toggled identifier : String) :
    (set.toggle toggled).find? identifier =
      if identifier = toggled then (set.find? identifier).map (·.toggled) else set.find? identifier := by
  by_cases h : identifier = toggled
  · subst h
    unfold toggle
    cases hcritical : set.criticalPart.value? identifier with
    | some value => simp [find?, Partition.value?_erase, Partition.value?_insert, hcritical, Extension.toggled]
    | none =>
      cases hnonCritical : set.nonCriticalPart.value? identifier <;>
        simp [find?, Partition.value?_insert, hcritical, hnonCritical, Extension.toggled]
  · unfold toggle
    cases set.criticalPart.value? toggled with
    | some value => simp [find?, Partition.value?_erase, Partition.value?_insert, h]
    | none =>
      cases set.nonCriticalPart.value? toggled <;>
        simp [find?, Partition.value?_erase, Partition.value?_insert, h]

theorem find?_replace (set : ExtensionSet) (replaced : String) (value : List UInt8) (identifier : String) :
    (set.replace replaced value).find? identifier =
      (set.find? identifier).map fun extension =>
        if identifier = replaced then { extension with value } else extension := by
  unfold replace
  split
  · next hcontains =>
    cases hold : set.criticalPart.value? identifier with
    | some old =>
      simp only [find?, Partition.value?_replace, hold, Option.map_some]
      split <;> rfl
    | none =>
      have hne : identifier ≠ replaced := by
        intro heq
        subst heq
        simp [Partition.contains, hold] at hcontains
      simp only [find?, Partition.value?_replace, hold, Option.map_none, hne, ↓reduceIte, Option.map_map]
      rfl
  · next habsent =>
    cases hold : set.criticalPart.value? identifier with
    | some old =>
      have hne : identifier ≠ replaced := by
        intro heq
        subst heq
        simp [Partition.contains, hold] at habsent
      simp [find?, hold, hne]
    | none =>
      simp only [find?, Partition.value?_replace, hold, Option.map_map]
      congr 1
      funext old
      simp only [Function.comp]
      split <;> rfl

end ExtensionSet

end CertExtensions
