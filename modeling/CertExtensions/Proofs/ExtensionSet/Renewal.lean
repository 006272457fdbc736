import CertExtensions.ExtensionSet.Update
import CertExtensions.Proofs.ExtensionSet.Contents
import CertExtensions.Proofs.Reader

/-!
# What new key identifiers do to a set

The work in place gives a new value to each extension that gets one, after all of them have been found
(`on_updateInPlace`). So each extension of the set is still there, as critical as it was, with the value that
`Extension.renewal?` gives it or else with its old one (`find?_update`). Only the authority key identifier can make the
update fail, and it does so exactly where it cannot be read (`update_eq_error_iff`).
-/

namespace CertExtensions

open Asn1

/-! ### One extension -/

namespace Extension

variable {subject : PublicKey} {issuer : Issuer} {extension : Extension}

private theorem type?_eq_some_iff {type : ExtensionType} :
    extension.type? = some type ↔ extension.identifier = type.identifier := by
  unfold type?
  constructor
  · intro h
    exact (ExtensionType.identifier_of_ofIdentifier? h).symm
  · intro h
    rw [h, ExtensionType.ofIdentifier?_identifier]

private theorem renewal?_subject (h : extension.identifier = ExtensionType.subjectKeyIdentifier.identifier) :
    extension.renewal? subject issuer = .ok (some ⟨ExtensionType.subjectKeyIdentifier.identifier,
      primitive .octetString subject.subjectKeyIdentifier⟩) := by
  unfold renewal?
  rw [type?_eq_some_iff.mpr h]

private theorem renewal?_authority (h : extension.identifier = ExtensionType.authorityKeyIdentifier.identifier) :
    extension.renewal? subject issuer = (readAuthorityKeyIdentifier extension.value).map fun old =>
      some ⟨ExtensionType.authorityKeyIdentifier.identifier,
        primitive .octetString (issuer.authorityKeyIdentifier old)⟩ := by
  unfold renewal?
  rw [type?_eq_some_iff.mpr h]
  cases readAuthorityKeyIdentifier extension.value <;> rfl

private theorem renewal?_other (hsubject : extension.identifier ≠ ExtensionType.subjectKeyIdentifier.identifier)
    (hauthority : extension.identifier ≠ ExtensionType.authorityKeyIdentifier.identifier) :
    extension.renewal? subject issuer = .ok none := by
  rw [Ne, ← type?_eq_some_iff] at hsubject hauthority
  unfold renewal?
  split
  · next h => exact absurd h hsubject
  · next h => exact absurd h hauthority
  · rfl

private theorem renewal?_eq_error {fault : Fault} (h : extension.renewal? subject issuer = .error fault) :
    extension.identifier = ExtensionType.authorityKeyIdentifier.identifier ∧
      readAuthorityKeyIdentifier extension.value = .error fault := by
  by_cases hauthority : extension.identifier = ExtensionType.authorityKeyIdentifier.identifier
  · rw [renewal?_authority hauthority] at h
    cases hread : readAuthorityKeyIdentifier extension.value with
    | ok old => rw [hread] at h; cases h
    | error other =>
      rw [hread] at h
      cases h
      exact ⟨hauthority, rfl⟩
  · by_cases hsubject : extension.identifier = ExtensionType.subjectKeyIdentifier.identifier
    · rw [renewal?_subject hsubject] at h
      cases h
    · rw [renewal?_other hsubject hauthority] at h
      cases h

/-- A new value is one for the identifier of the extension. -/
private theorem identifier_of_renewal? {entry : Partition.Entry}
    (h : extension.renewal? subject issuer = .ok (some entry)) :
    entry.identifier = extension.identifier := by
  by_cases hsubject : extension.identifier = ExtensionType.subjectKeyIdentifier.identifier
  · rw [renewal?_subject hsubject] at h
    cases h
    exact hsubject.symm
  · by_cases hauthority : extension.identifier = ExtensionType.authorityKeyIdentifier.identifier
    · rw [renewal?_authority hauthority] at h
      obtain ⟨old, -, hentry⟩ := Reader.map_eq_ok h
      cases hentry
      exact hauthority.symm
    · rw [renewal?_other hsubject hauthority] at h
      cases h

/-- The extension with the new value, if there is one for it. -/
def renewed (extension : Extension) : Option Partition.Entry → Extension
  | some entry => { extension with value := entry.value }
  | none => extension

end Extension

namespace ExtensionSet

variable {set updated : ExtensionSet} {subject : PublicKey} {issuer : Issuer}

/-! ### Work in place -/

namespace InPlace

variable {α β : Type} {work : InPlace α} {next : α → InPlace β} {left : ExtensionSet}

private theorem on_bind_of_ok {value : α} (h : work.on set = (.ok value, left)) :
    (work >>= next).on set = (next value).on left := by
  unfold on at h ⊢
  rw [ExceptT.run_bind, StateT.run_bind, h]
  rfl

private theorem on_bind_of_error {error : Error} (h : work.on set = (.error error, left)) :
    (work >>= next).on set = (.error error, left) := by
  unfold on at h ⊢
  rw [ExceptT.run_bind, StateT.run_bind, h]
  rfl

end InPlace

private theorem on_findRenewal_of_ok {extension : Extension} {renewal? : Option Partition.Entry}
    (h : extension.renewal? subject issuer = .ok renewal?) (found : List Partition.Entry) (set : ExtensionSet) :
    (findRenewal subject issuer found extension).on set = (.ok (found ++ renewal?.toList), set) := by
  unfold findRenewal
  rw [h]
  rfl

private theorem on_findRenewal_of_error {extension : Extension} {fault : Fault}
    (h : extension.renewal? subject issuer = .error fault) (found : List Partition.Entry) (set : ExtensionSet) :
    (findRenewal subject issuer found extension).on set = (.error (.decode fault), set) := by
  unfold findRenewal
  rw [h]
  rfl

/-- Going through extensions for their new values leaves the set alone, also where one of them cannot be read. -/
private theorem on_foldlM_findRenewal (extensions : List Extension) (found : List Partition.Entry)
    (set : ExtensionSet) :
    InPlace.on (extensions.foldlM (findRenewal subject issuer) found) set =
      match extensions.mapM (·.renewal? subject issuer) with
      | .ok results => (.ok (found ++ results.filterMap id), set)
      | .error fault => (.error (.decode fault), set) := by
  induction extensions generalizing found with
  | nil => exact congrArg (fun found : List Partition.Entry => (Except.ok found, set)) (List.append_nil found).symm
  | cons extension extensions ih =>
    rw [List.foldlM_cons, List.mapM_cons]
    cases hextension : extension.renewal? subject issuer with
    | error fault =>
      rw [InPlace.on_bind_of_error (on_findRenewal_of_error hextension found set)]
      rfl
    | ok renewal? =>
      rw [InPlace.on_bind_of_ok (on_findRenewal_of_ok hextension found set), ih]
      cases extensions.mapM (·.renewal? subject issuer) with
      | error fault => rfl
      | ok results =>
        have hfound : found ++ renewal?.toList ++ results.filterMap id =
            found ++ (renewal? :: results).filterMap id := by
          cases renewal? <;> simp
        exact congrArg (fun found : List Partition.Entry => (Except.ok found, set)) hfound

private theorem on_forM_writeRenewal (entries : List Partition.Entry) (set : ExtensionSet) :
    InPlace.on (entries.forM writeRenewal) set = (.ok (), set.replaceAll entries) := by
  induction entries generalizing set with
  | nil => rfl
  | cons entry entries ih =>
    have hentry : (writeRenewal entry).on set = (.ok (), set.replace entry.identifier entry.value) := rfl
    exact (InPlace.on_bind_of_ok hentry).trans (ih _)

/-- Nothing is written before all new values have been found. -/
theorem on_updateInPlace (set : ExtensionSet) :
    (updateInPlace subject issuer).on set =
      match set.toList.mapM (·.renewal? subject issuer) with
      | .ok results => (.ok (), set.replaceAll (results.filterMap id))
      | .error fault => (.error (.decode fault), set) := by
  have hget : InPlace.on get set = (.ok set, set) := rfl
  have hfound : InPlace.on (set.toList.foldlM (findRenewal subject issuer) []) set = _ :=
    on_foldlM_findRenewal set.toList [] set
  unfold updateInPlace
  rw [InPlace.on_bind_of_ok hget]
  cases hresults : set.toList.mapM (·.renewal? subject issuer) with
  | error fault =>
    rw [hresults] at hfound
    exact InPlace.on_bind_of_error hfound
  | ok results =>
    rw [hresults] at hfound
    rw [InPlace.on_bind_of_ok hfound, on_forM_writeRenewal]
    rfl

/-! ### All extensions -/

private theorem find?_replaceAll (set : ExtensionSet) (entries : List Partition.Entry) (identifier : String) :
    (set.replaceAll entries).find? identifier =
      (set.find? identifier).map fun extension =>
        extension.renewed (entries.reverse.find? (·.identifier = identifier)) := by
  induction entries generalizing set with
  | nil => cases h : set.find? identifier <;> simp [replaceAll, h, Extension.renewed]
  | cons entry entries ih =>
    have hcons : set.replaceAll (entry :: entries) =
        (set.replace entry.identifier entry.value).replaceAll entries := rfl
    rw [hcons, ih, find?_replace, Option.map_map, List.reverse_cons, List.find?_append]
    congr 1
    funext extension
    -- a later value for the identifier hides this one
    cases entries.reverse.find? (·.identifier = identifier) with
    | some later =>
      simp only [Function.comp, Option.some_or, Extension.renewed]
      split <;> rfl
    | none =>
      by_cases h : entry.identifier = identifier
      · subst h
        simp [Extension.renewed]
      · simp [Extension.renewed, h, Ne.symm h]

theorem update_eq_of_mapM {results : List (Option Partition.Entry)}
    (h : set.toList.mapM (·.renewal? subject issuer) = .ok results) :
    set.update subject issuer = .ok (set.replaceAll (results.filterMap id)) := by
  unfold update
  rw [on_updateInPlace, h]

theorem update_eq_of_mapM_error {fault : Fault}
    (h : set.toList.mapM (·.renewal? subject issuer) = .error fault) :
    set.update subject issuer = .error (.decode fault) := by
  unfold update
  rw [on_updateInPlace, h]

/-- Of the new values for a set, the one under the identifier of an extension is the one for this extension. -/
private theorem find?_results {results : List (Option Partition.Entry)}
    (h : set.toList.mapM (·.renewal? subject issuer) = .ok results) {extension : Extension}
    (hmem : extension ∈ set.toList) :
    extension.renewal? subject issuer =
      .ok ((results.filterMap id).reverse.find? (·.identifier = extension.identifier)) := by
  obtain ⟨hleft, hright⟩ := Reader.mem_of_mapM_ok h
  obtain ⟨renewal?, hresult, hrenewal⟩ := hleft extension hmem
  rw [hrenewal]
  congr 1
  cases hfind : (results.filterMap id).reverse.find? (·.identifier = extension.identifier) with
  | some entry =>
    have hentry : some entry ∈ results := by
      simpa using List.mem_of_find?_eq_some hfind
    have hid : entry.identifier = extension.identifier := by simpa using List.find?_some hfind
    -- the new value is that of some extension, and no other extension has its identifier
    obtain ⟨other, hother, hsame⟩ := hright _ hentry
    have heq : other = extension :=
      eq_of_identifier_eq hother hmem ((Extension.identifier_of_renewal? hsame).symm.trans hid)
    rw [heq, hrenewal] at hsame
    exact Except.ok.inj hsame
  | none =>
    cases renewal? with
    | none => rfl
    | some entry =>
      have hentry : entry ∈ (results.filterMap id).reverse := by simpa using hresult
      have := List.find?_eq_none.mp hfind entry hentry
      rw [decide_eq_true_eq] at this
      exact absurd (Extension.identifier_of_renewal? hrenewal) this

/-- Every extension is still there, with the new value for it or else its old one, and no other one is there. -/
theorem find?_update (h : set.update subject issuer = .ok updated) (identifier : String) :
    set.find? identifier = none ∧ updated.find? identifier = none ∨
      ∃ extension renewal?, set.find? identifier = some extension ∧
        extension.renewal? subject issuer = .ok renewal? ∧
        updated.find? identifier = some (extension.renewed renewal?) := by
  cases hresults : set.toList.mapM (·.renewal? subject issuer) with
  | error fault =>
    rw [update_eq_of_mapM_error hresults] at h
    cases h
  | ok results =>
    rw [update_eq_of_mapM hresults] at h
    cases h
    rw [find?_replaceAll]
    cases hfind : set.find? identifier with
    | none => exact .inl ⟨rfl, rfl⟩
    | some extension =>
      obtain ⟨hmem, rfl⟩ := find?_eq_some_iff.mp hfind
      exact .inr ⟨extension, _, rfl, find?_results hresults hmem, rfl⟩

theorem find?_update_subject (h : set.update subject issuer = .ok updated) :
    updated.find? ExtensionType.subjectKeyIdentifier.identifier =
      (set.find? ExtensionType.subjectKeyIdentifier.identifier).map fun extension =>
        { extension with value := primitive .octetString subject.subjectKeyIdentifier } := by
  rcases find?_update h ExtensionType.subjectKeyIdentifier.identifier with
    ⟨hset, hupdated⟩ | ⟨extension, renewal?, hset, hrenewal, hupdated⟩
  · rw [hset, hupdated, Option.map_none]
  · rw [Extension.renewal?_subject (identifier_of_find? hset)] at hrenewal
    cases hrenewal
    rw [hset, hupdated, Option.map_some, Extension.renewed]

theorem find?_update_authority (h : set.update subject issuer = .ok updated) {extension : Extension}
    (hfind : set.find? ExtensionType.authorityKeyIdentifier.identifier = some extension) :
    ∃ old, Extension.readAuthorityKeyIdentifier extension.value = .ok old ∧
      updated.find? ExtensionType.authorityKeyIdentifier.identifier =
        some { extension with value := primitive .octetString (issuer.authorityKeyIdentifier old) } := by
  rcases find?_update h ExtensionType.authorityKeyIdentifier.identifier with
    ⟨hset, -⟩ | ⟨found, renewal?, hset, hrenewal, hupdated⟩
  · rw [hset] at hfind
    cases hfind
  · rw [hset] at hfind
    cases hfind
    rw [Extension.renewal?_authority (identifier_of_find? hset)] at hrenewal
    obtain ⟨old, hread, hentry⟩ := Reader.map_eq_ok hrenewal
    cases hentry
    exact ⟨old, hread, hupdated⟩

theorem find?_update_other (h : set.update subject issuer = .ok updated) {identifier : String}
    (hsubject : identifier ≠ ExtensionType.subjectKeyIdentifier.identifier)
    (hauthority : identifier ≠ ExtensionType.authorityKeyIdentifier.identifier) :
    updated.find? identifier = set.find? identifier := by
  rcases find?_update h identifier with ⟨hset, hupdated⟩ | ⟨extension, renewal?, hset, hrenewal, hupdated⟩
  · rw [hset, hupdated]
  · obtain rfl := identifier_of_find? hset
    rw [Extension.renewal?_other hsubject hauthority] at hrenewal
    cases hrenewal
    rw [hset, hupdated, Extension.renewed]

/-! ### Success and failure -/

theorem update_of_unreadable {extension : Extension} {fault : Fault}
    (hfind : set.find? ExtensionType.authorityKeyIdentifier.identifier = some extension)
    (hread : Extension.readAuthorityKeyIdentifier extension.value = .error fault) :
    set.update subject issuer = .error (.decode fault) := by
  obtain ⟨hmem, hid⟩ := find?_eq_some_iff.mp hfind
  cases hresults : set.toList.mapM (·.renewal? subject issuer) with
  | ok results =>
    obtain ⟨renewal?, -, hrenewal⟩ := (Reader.mem_of_mapM_ok hresults).1 extension hmem
    rw [Extension.renewal?_authority hid, hread] at hrenewal
    cases hrenewal
  | error other =>
    obtain ⟨failing, hfailing, hother⟩ := Reader.mem_of_mapM_error hresults
    obtain ⟨hauthority, hfault⟩ := Extension.renewal?_eq_error hother
    have heq : failing = extension := eq_of_identifier_eq hfailing hmem (hauthority.trans hid.symm)
    rw [heq, hread] at hfault
    cases hfault
    exact update_eq_of_mapM_error hresults

theorem update_of_readable
    (h : ∀ extension, set.find? ExtensionType.authorityKeyIdentifier.identifier = some extension →
      ∃ old, Extension.readAuthorityKeyIdentifier extension.value = .ok old) :
    ∃ updated, set.update subject issuer = .ok updated := by
  cases hresults : set.toList.mapM (·.renewal? subject issuer) with
  | ok results => exact ⟨_, update_eq_of_mapM hresults⟩
  | error fault =>
    obtain ⟨failing, hfailing, hfault⟩ := Reader.mem_of_mapM_error hresults
    obtain ⟨hauthority, hread⟩ := Extension.renewal?_eq_error hfault
    obtain ⟨old, hold⟩ := h failing (find?_eq_some_iff.mpr ⟨hfailing, hauthority⟩)
    rw [hold] at hread
    cases hread

/-- Whose key and whose certificate it is does not matter for success or failure. -/
theorem update_eq_error_iff {error : Error} :
    set.update subject issuer = .error error ↔
      ∃ extension fault, set.find? ExtensionType.authorityKeyIdentifier.identifier = some extension ∧
        Extension.readAuthorityKeyIdentifier extension.value = .error fault ∧ error = .decode fault := by
  constructor
  · intro herror
    by_contra hreadable
    -- where no fault of the reading is the error there is no fault, and the update succeeds
    obtain ⟨updated, hupdated⟩ : ∃ updated, set.update subject issuer = .ok updated := by
      apply update_of_readable
      intro extension hfind
      cases hread : Extension.readAuthorityKeyIdentifier extension.value with
      | ok old => exact ⟨old, rfl⟩
      | error fault =>
        rw [update_of_unreadable hfind hread] at herror
        exact absurd ⟨extension, fault, hfind, hread, (Except.error.inj herror).symm⟩ hreadable
    rw [hupdated] at herror
    cases herror
  · rintro ⟨extension, fault, hfind, hread, rfl⟩
    exact update_of_unreadable hfind hread

end ExtensionSet

end CertExtensions
