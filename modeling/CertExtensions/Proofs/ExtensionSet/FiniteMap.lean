import CertExtensions.Proofs.ExtensionSet.Renewal
import Mathlib.Data.Finmap

/-!
# Sets as finite maps

What a set holds is a finite map from identifiers to criticality and value (`lookup_toMap`), and sets with the same map
are equal (`toMap_injective`). Every operation on sets is the operation of that kind on maps: `toMap_insert`,
`toMap_erase`, `toMap_toggle`, `toMap_insertAll` and `toMap_update`. The answers of a set are those of its map
(`shows_toMap`).
-/

namespace CertExtensions

open Asn1

/-- Criticality and value by identifier. -/
abbrev ExtensionMap := Finmap fun _ : String => Bool × List UInt8

/-! ### Operations on maps -/

namespace ExtensionMap

/-- The map with one more extension, or another one in the place of the one with the same identifier. -/
def add (map : ExtensionMap) (extension : Extension) : ExtensionMap :=
  map.insert extension.identifier (extension.critical, extension.value)

/-- The map with more extensions, the first one first. -/
def addAll (map : ExtensionMap) (extensions : List Extension) : ExtensionMap :=
  extensions.foldl add map

/-- Changes what the identifier has, if it has something. -/
def adjust (map : ExtensionMap) (identifier : String) (change : Bool × List UInt8 → Bool × List UInt8) :
    ExtensionMap :=
  match map.lookup identifier with
  | some entry => map.insert identifier (change entry)
  | none => map

/-- Turns the criticality around. -/
def toggle (map : ExtensionMap) (identifier : String) : ExtensionMap :=
  map.adjust identifier fun entry => (!entry.1, entry.2)

/-- Gives the identifier another value, if it has one. -/
def setValue (map : ExtensionMap) (identifier : String) (value : List UInt8) : ExtensionMap :=
  map.adjust identifier fun entry => (entry.1, value)

/-- Gives the key identifiers that are there new values. -/
def update (map : ExtensionMap) (subject : PublicKey) (issuer : Issuer) : Except Error ExtensionMap :=
  let named := map.setValue ExtensionType.subjectKeyIdentifier.identifier
    (primitive .octetString subject.subjectKeyIdentifier)
  match map.lookup ExtensionType.authorityKeyIdentifier.identifier with
  | none => .ok named
  | some (_, value) =>
    match Extension.readAuthorityKeyIdentifier value with
    | .error fault => .error (.decode fault)
    | .ok old =>
      .ok (named.setValue ExtensionType.authorityKeyIdentifier.identifier
        (primitive .octetString (issuer.authorityKeyIdentifier old)))

private theorem lookup_add (map : ExtensionMap) (extension : Extension) (identifier : String) :
    (map.add extension).lookup identifier =
      if identifier = extension.identifier then some (extension.critical, extension.value)
      else map.lookup identifier := by
  unfold add
  split
  · next h => rw [h, Finmap.lookup_insert]
  · next h => rw [Finmap.lookup_insert_of_ne _ h]

private theorem lookup_adjust (map : ExtensionMap) (adjusted : String) (change : Bool × List UInt8 → Bool × List UInt8)
    (identifier : String) :
    (map.adjust adjusted change).lookup identifier =
      if identifier = adjusted then (map.lookup identifier).map change else map.lookup identifier := by
  unfold adjust
  by_cases h : identifier = adjusted
  · subst h
    rw [if_pos rfl]
    cases hlookup : map.lookup identifier with
    | none => exact hlookup
    | some entry => exact Finmap.lookup_insert map
  · rw [if_neg h]
    cases map.lookup adjusted with
    | none => rfl
    | some entry => exact Finmap.lookup_insert_of_ne map h

private theorem lookup_toggle (map : ExtensionMap) (toggled identifier : String) :
    (map.toggle toggled).lookup identifier =
      if identifier = toggled then (map.lookup identifier).map fun entry => (!entry.1, entry.2)
      else map.lookup identifier :=
  lookup_adjust map toggled _ identifier

private theorem lookup_setValue (map : ExtensionMap) (changed : String) (value : List UInt8) (identifier : String) :
    (map.setValue changed value).lookup identifier =
      if identifier = changed then (map.lookup identifier).map fun entry => (entry.1, value)
      else map.lookup identifier :=
  lookup_adjust map changed _ identifier

end ExtensionMap

/-! ### The map of a set -/

namespace Extension

/-- What the map of a set has for the extension. -/
def entry (extension : Extension) : Bool × List UInt8 :=
  (extension.critical, extension.value)

end Extension

namespace ExtensionSet

variable {set other : ExtensionSet}

/-- What a set holds. -/
def toMap (set : ExtensionSet) : ExtensionMap :=
  (set.toList.map fun extension => (⟨extension.identifier, extension.entry⟩ : Σ _ : String, Bool × List UInt8)).toFinmap

theorem lookup_toMap (set : ExtensionSet) (identifier : String) :
    set.toMap.lookup identifier = (set.find? identifier).map (·.entry) := by
  -- no identifier is a key twice, so what is found under a key is what the list has for it
  have hnodup : (set.toList.map fun extension =>
      (⟨extension.identifier, extension.entry⟩ : Σ _ : String, Bool × List UInt8)).NodupKeys := by
    unfold List.NodupKeys List.keys
    rw [List.map_map]
    exact set.nodup_identifiers_toList
  rw [toMap, Finmap.dlookup_list_toFinmap]
  ext entry
  rw [← Option.mem_def, List.mem_dlookup_iff hnodup, List.mem_map, Option.map_eq_some_iff]
  constructor
  · rintro ⟨extension, hmem, heq⟩
    cases heq
    exact ⟨extension, mem_toList_iff.mp hmem, rfl⟩
  · rintro ⟨extension, hfind, rfl⟩
    obtain ⟨hmem, rfl⟩ := find?_eq_some_iff.mp hfind
    exact ⟨extension, hmem, rfl⟩

/-- Sets with the same map are equal. -/
theorem toMap_injective (h : set.toMap = other.toMap) : set = other := by
  apply ext_find?
  intro identifier
  have hlookup := congrArg (Finmap.lookup identifier) h
  rw [lookup_toMap, lookup_toMap] at hlookup
  cases hset : set.find? identifier with
  | none =>
    cases hother : other.find? identifier with
    | none => rfl
    | some extension =>
      rw [hset, hother] at hlookup
      cases hlookup
  | some extension =>
    cases hother : other.find? identifier with
    | none =>
      rw [hset, hother] at hlookup
      cases hlookup
    | some same =>
      rw [hset, hother, Option.map_some, Option.map_some, Option.some.injEq, Extension.entry, Extension.entry,
        Prod.mk.injEq] at hlookup
      have hid := (identifier_of_find? hset).trans (identifier_of_find? hother).symm
      rw [Extension.ext hid hlookup.1 hlookup.2]

theorem toMap_inj : set.toMap = other.toMap ↔ set = other :=
  ⟨toMap_injective, congrArg toMap⟩

/-! ### Operations on sets and on maps -/

theorem toMap_empty : empty.toMap = ∅ := rfl

theorem toMap_insert (set : ExtensionSet) (extension : Extension) :
    (set.insert extension).toMap = set.toMap.add extension := by
  apply Finmap.ext_lookup
  intro identifier
  rw [lookup_toMap, find?_insert, ExtensionMap.lookup_add, lookup_toMap]
  split <;> rfl

theorem toMap_insertAll (set : ExtensionSet) (extensions : List Extension) :
    (set.insertAll extensions).toMap = set.toMap.addAll extensions := by
  induction extensions generalizing set with
  | nil => rfl
  | cons extension extensions ih =>
    have hcons : set.insertAll (extension :: extensions) = (set.insert extension).insertAll extensions := rfl
    rw [hcons, ih, toMap_insert]
    rfl

theorem toMap_erase (set : ExtensionSet) (identifier : String) :
    (set.erase identifier).toMap = set.toMap.erase identifier := by
  apply Finmap.ext_lookup
  intro other
  rw [lookup_toMap, find?_erase]
  by_cases h : other = identifier
  · subst h
    rw [if_pos rfl, Finmap.lookup_erase, Option.map_none]
  · rw [if_neg h, Finmap.lookup_erase_ne h, lookup_toMap]

theorem toMap_toggle (set : ExtensionSet) (identifier : String) :
    (set.toggle identifier).toMap = set.toMap.toggle identifier := by
  apply Finmap.ext_lookup
  intro other
  rw [lookup_toMap, find?_toggle, ExtensionMap.lookup_toggle, lookup_toMap]
  by_cases h : other = identifier
  · rw [if_pos h, if_pos h, Option.map_map, Option.map_map]
    rfl
  · rw [if_neg h, if_neg h]

/-! ### New key identifiers -/

private theorem authorityKeyIdentifier_ne :
    ExtensionType.authorityKeyIdentifier.identifier ≠ ExtensionType.subjectKeyIdentifier.identifier := by
  decide

variable {updated : ExtensionSet} {subject : PublicKey} {issuer : Issuer}

private theorem lookup_toMap_of_update (h : set.update subject issuer = .ok updated) {identifier : String}
    (hauthority : identifier ≠ ExtensionType.authorityKeyIdentifier.identifier) :
    updated.toMap.lookup identifier =
      (set.toMap.setValue ExtensionType.subjectKeyIdentifier.identifier
        (primitive .octetString subject.subjectKeyIdentifier)).lookup identifier := by
  rw [ExtensionMap.lookup_setValue, lookup_toMap, lookup_toMap]
  by_cases hsubject : identifier = ExtensionType.subjectKeyIdentifier.identifier
  · rw [if_pos hsubject, hsubject, find?_update_subject h, Option.map_map, Option.map_map]
    rfl
  · rw [if_neg hsubject, find?_update_other h hsubject hauthority]

private theorem toMap_of_update_of_none (h : set.update subject issuer = .ok updated)
    (hfind : set.find? ExtensionType.authorityKeyIdentifier.identifier = none) :
    updated.toMap = set.toMap.setValue ExtensionType.subjectKeyIdentifier.identifier
      (primitive .octetString subject.subjectKeyIdentifier) := by
  apply Finmap.ext_lookup
  intro identifier
  by_cases hauthority : identifier = ExtensionType.authorityKeyIdentifier.identifier
  · subst hauthority
    rcases find?_update h ExtensionType.authorityKeyIdentifier.identifier with
      ⟨-, hnone⟩ | ⟨extension, -, hsome, -⟩
    · rw [ExtensionMap.lookup_setValue, if_neg authorityKeyIdentifier_ne, lookup_toMap, lookup_toMap, hfind, hnone]
    · rw [hfind] at hsome
      cases hsome
  · exact lookup_toMap_of_update h hauthority

private theorem toMap_of_update_of_some (h : set.update subject issuer = .ok updated) {extension : Extension}
    (hfind : set.find? ExtensionType.authorityKeyIdentifier.identifier = some extension)
    {old : AuthorityKeyIdentifier} (hread : Extension.readAuthorityKeyIdentifier extension.value = .ok old) :
    updated.toMap = (set.toMap.setValue ExtensionType.subjectKeyIdentifier.identifier
      (primitive .octetString subject.subjectKeyIdentifier)).setValue
        ExtensionType.authorityKeyIdentifier.identifier
        (primitive .octetString (issuer.authorityKeyIdentifier old)) := by
  apply Finmap.ext_lookup
  intro identifier
  rw [ExtensionMap.lookup_setValue _ ExtensionType.authorityKeyIdentifier.identifier]
  by_cases hauthority : identifier = ExtensionType.authorityKeyIdentifier.identifier
  · obtain ⟨same, hsame, hnew⟩ := find?_update_authority h hfind
    rw [hread] at hsame
    cases hsame
    rw [if_pos hauthority, hauthority, ExtensionMap.lookup_setValue, if_neg authorityKeyIdentifier_ne, lookup_toMap,
      lookup_toMap, hnew, hfind]
    rfl
  · rw [if_neg hauthority]
    exact lookup_toMap_of_update h hauthority

/-- New key identifiers are found for a set exactly where they are found for its map. -/
theorem toMap_update (set : ExtensionSet) (subject : PublicKey) (issuer : Issuer) :
    (set.update subject issuer).map toMap = set.toMap.update subject issuer := by
  unfold ExtensionMap.update
  rw [lookup_toMap]
  cases hfind : set.find? ExtensionType.authorityKeyIdentifier.identifier with
  | none =>
    -- without an authority key identifier there is nothing to read, so nothing can fail
    obtain ⟨updated, hupdated⟩ : ∃ updated, set.update subject issuer = .ok updated := by
      apply update_of_readable
      intro extension hsome
      rw [hfind] at hsome
      cases hsome
    rw [hupdated, Except.map, toMap_of_update_of_none hupdated hfind]
    rfl
  | some extension =>
    cases hread : Extension.readAuthorityKeyIdentifier extension.value with
    | error fault =>
      rw [update_of_unreadable hfind hread, Option.map_some, Extension.entry]
      simp only [hread]
      rfl
    | ok old =>
      obtain ⟨updated, hupdated⟩ : ∃ updated, set.update subject issuer = .ok updated := by
        apply update_of_readable
        intro found hfound
        rw [hfind] at hfound
        cases hfound
        exact ⟨old, hread⟩
      rw [hupdated, Except.map, toMap_of_update_of_some hupdated hfind hread, Option.map_some, Extension.entry]
      simp only [hread]

/-! ### What a set tells about its map -/

/-- The answers that a set gives to queries are those of the map. -/
structure Shows (set : ExtensionSet) (map : ExtensionMap) : Prop where
  apart : ∀ identifier, ¬(set.criticalPart.contains identifier ∧ set.nonCriticalPart.contains identifier)
  value? : ∀ identifier, set.value? identifier = (map.lookup identifier).map (·.2)
  contains : ∀ identifier, set.contains identifier ↔ identifier ∈ map
  isCritical : ∀ identifier, set.isCritical identifier ↔ ∃ value, map.lookup identifier = some (true, value)
  critical : ∀ identifier, identifier ∈ set.critical.map (·.identifier) ↔
    ∃ value, map.lookup identifier = some (true, value)
  nonCritical : ∀ identifier, identifier ∈ set.nonCritical.map (·.identifier) ↔
    ∃ value, map.lookup identifier = some (false, value)
  size : set.size = map.keys.card
  isEmpty : set.isEmpty ↔ map = ∅
  mem : ∀ extension, extension ∈ set.toList ↔ map.lookup extension.identifier = some extension.entry
  once : ∀ identifier, (set.toList.map (·.identifier)).count identifier = if identifier ∈ map then 1 else 0
  order : set.toList.Pairwise fun a b =>
    a.critical = true ∧ b.critical = false ∨ a.critical = b.critical ∧ a.identifier < b.identifier

private theorem mem_toMap {identifier : String} :
    identifier ∈ set.toMap ↔ identifier ∈ set.toList.map (·.identifier) := by
  rw [← Finmap.lookup_isSome, lookup_toMap, Option.isSome_map, Option.isSome_iff_exists, List.mem_map]
  simp only [find?_eq_some_iff]

private theorem keys_toMap (set : ExtensionSet) : set.toMap.keys = (set.toList.map (·.identifier)).toFinset := by
  ext identifier
  rw [Finmap.mem_keys, mem_toMap, List.mem_toFinset]

private theorem find?_isSome_iff_mem_part {critical : Bool} {identifier : String} :
    identifier ∈ ((set.part critical).entries.map (·.extension critical)).map (·.identifier) ↔
      ∃ value, set.toMap.lookup identifier = some (critical, value) := by
  rw [List.mem_map, lookup_toMap]
  simp only [mem_map_part, Option.map_eq_some_iff]
  constructor
  · rintro ⟨extension, ⟨hfind, rfl⟩, rfl⟩
    exact ⟨extension.value, extension, hfind, rfl⟩
  · rintro ⟨value, extension, hfind, hentry⟩
    obtain rfl := identifier_of_find? hfind
    cases hentry
    exact ⟨extension, ⟨hfind, rfl⟩, rfl⟩

theorem shows_toMap (set : ExtensionSet) : set.Shows set.toMap where
  apart identifier := by
    rintro ⟨hcritical, hnonCritical⟩
    rcases set.disjoint identifier with h | h
    · rw [Partition.contains, h] at hcritical
      cases hcritical
    · rw [Partition.contains, h] at hnonCritical
      cases hnonCritical
  value? identifier := by
    rw [value?_eq, lookup_toMap, Option.map_map]
    rfl
  contains identifier := by
    rw [contains_eq, ← Finmap.lookup_isSome, lookup_toMap, Option.isSome_map]
  isCritical identifier := by
    rw [isCritical_eq, lookup_toMap]
    cases set.find? identifier <;> simp [Extension.entry]
  critical identifier := find?_isSome_iff_mem_part
  nonCritical identifier := find?_isSome_iff_mem_part
  size := by
    rw [keys_toMap, List.toFinset_card_of_nodup set.nodup_identifiers_toList, List.length_map, length_toList]
  isEmpty := by
    rw [isEmpty, beq_iff_eq, ← length_toList, List.length_eq_zero_iff]
    constructor
    · intro h
      rw [toMap, h]
      rfl
    · intro h
      have hkeys := keys_toMap set
      rw [h, Finmap.keys_empty] at hkeys
      simpa using hkeys.symm
  mem extension := by
    rw [mem_toList_iff, lookup_toMap, Option.map_eq_some_iff]
    constructor
    · intro hfind
      exact ⟨extension, hfind, rfl⟩
    · rintro ⟨found, hfind, hentry⟩
      obtain ⟨hcritical, hvalue⟩ := Prod.mk.inj hentry
      rw [hfind, Extension.ext (identifier_of_find? hfind) hcritical hvalue]
  once identifier := by
    rw [set.nodup_identifiers_toList.count]
    simp only [mem_toMap]
  order := set.pairwise_toList

end ExtensionSet

end CertExtensions
