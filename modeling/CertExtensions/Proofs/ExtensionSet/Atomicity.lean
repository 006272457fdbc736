import CertExtensions.ExtensionSet.Operation
import CertExtensions.Proofs.ExtensionSet.KeyIdentifiers

/-!
# Updates that fail

An update goes through a set for its new values and stops at a value that it cannot read, however many new values it
has found by then. It does so exactly where the set has an authority key identifier that cannot be read, and the set is
then what it was before (`updateInPlace_atomic`). So to go on with the old set is to go on with what the work in place
has left (`after_update`).
-/

namespace CertExtensions

open Asn1

/-- Reading the value takes one octet string, and then an authority key identifier out of it. -/
private theorem Extension.exists_readAuthorityKeyIdentifier_iff {value : List UInt8} :
    (∃ id, readAuthorityKeyIdentifier value = .ok id) ↔
      ∃ octets id, octetString.whole value = .ok octets ∧ AuthorityKeyIdentifier.taggedType.whole octets = .ok id := by
  constructor
  · rintro ⟨id, hread⟩
    obtain ⟨octets, hoctets, hid⟩ := Reader.bind_eq_ok hread
    exact ⟨octets, id, hoctets, hid⟩
  · rintro ⟨octets, id, hoctets, hid⟩
    refine ⟨id, ?_⟩
    unfold readAuthorityKeyIdentifier
    rw [hoctets]
    exact hid

namespace ExtensionSet

variable {set : ExtensionSet} {subject : PublicKey} {issuer : Issuer}

private theorem update_eq_map_on (set : ExtensionSet) (subject : PublicKey) (issuer : Issuer) :
    set.update subject issuer =
      ((updateInPlace subject issuer).on set).1.map fun _ => ((updateInPlace subject issuer).on set).2 := by
  unfold update
  rcases (updateInPlace subject issuer).on set with ⟨_ | _, left⟩ <;> rfl

/-- Work in place that fails leaves the set as it was. -/
private theorem on_updateInPlace_of_error {error : Error} (h : set.update subject issuer = .error error) :
    (updateInPlace subject issuer).on set = (.error error, set) := by
  cases hresults : set.toList.mapM (·.renewal? subject issuer) with
  | ok results =>
    rw [update_eq_of_mapM hresults] at h
    cases h
  | error fault =>
    rw [update_eq_of_mapM_error hresults] at h
    cases h
    rw [on_updateInPlace, hresults]

private theorem on_updateInPlace_eq_error_iff {error : Error} :
    ((updateInPlace subject issuer).on set).1 = .error error ↔ set.update subject issuer = .error error := by
  rw [update_eq_map_on]
  cases ((updateInPlace subject issuer).on set).1 <;> simp [Except.map]

/-- An update fails exactly where the set has an authority key identifier that is not one octet string with an
authority key identifier in it. The error is then that of the reading, and the set is the one from before. -/
theorem updateInPlace_atomic (set : ExtensionSet) (subject : PublicKey) (issuer : Issuer) :
    let outcome := ((updateInPlace subject issuer).on set).1
    let left := ((updateInPlace subject issuer).on set).2
    ((∃ error, outcome = .error error) ↔
      ∃ value, set.value? "2.5.29.35" = some value ∧
        ¬∃ octets id, octetString.whole value = .ok octets ∧
          AuthorityKeyIdentifier.taggedType.whole octets = .ok id) ∧
      (∀ error, outcome = .error error →
        left = set ∧ ∃ value fault, set.value? "2.5.29.35" = some value ∧
          Extension.readAuthorityKeyIdentifier value = .error fault ∧ error = .decode fault) ∧
      set.update subject issuer = outcome.map fun _ => left := by
  intro outcome left
  refine ⟨?_, ?_, update_eq_map_on set subject issuer⟩
  · simp only [outcome, on_updateInPlace_eq_error_iff, update_eq_error_iff, value?_eq, Option.map_eq_some_iff,
      ← Extension.exists_readAuthorityKeyIdentifier_iff]
    constructor
    · rintro ⟨error, extension, fault, hfind, hread, -⟩
      refine ⟨extension.value, ⟨extension, hfind, rfl⟩, ?_⟩
      rintro ⟨id, hid⟩
      rw [hread] at hid
      cases hid
    · rintro ⟨value, ⟨extension, hfind, rfl⟩, hunreadable⟩
      cases hread : Extension.readAuthorityKeyIdentifier extension.value with
      | ok id => exact absurd ⟨id, hread⟩ hunreadable
      | error fault => exact ⟨.decode fault, extension, fault, hfind, hread, rfl⟩
  · intro error herror
    have hupdate := on_updateInPlace_eq_error_iff.mp herror
    obtain ⟨extension, fault, hfind, hread, hfault⟩ := update_eq_error_iff.mp hupdate
    refine ⟨congrArg Prod.snd (on_updateInPlace_of_error hupdate), extension.value, fault, ?_, hread, hfault⟩
    rw [value?_eq]
    exact congrArg (Option.map (·.value)) hfind

/-- A critical subject key identifier, for which a new value is found first, and an authority key identifier that is
not a sequence. -/
theorem updateInPlace_atomic_notSequence :
    let set := empty.insertAll [⟨"2.5.29.14", true, [4, 3, 4, 1, 0]⟩, ⟨"2.5.29.35", false, [4, 2, 5, 0]⟩]
    (updateInPlace ⟨[4]⟩ sampleIssuer).on set = (.error (.decode .invalid), set) := by
  intro set
  obtain ⟨hfails, hrestores, -⟩ := updateInPlace_atomic set ⟨[4]⟩ sampleIssuer
  have hvalue : set.value? "2.5.29.35" = some [4, 2, 5, 0] := by decide
  have hread : Extension.readAuthorityKeyIdentifier [4, 2, 5, 0] = .error .invalid := by decide
  obtain ⟨error, herror⟩ := hfails.mpr ⟨_, hvalue, by
    rw [← Extension.exists_readAuthorityKeyIdentifier_iff, hread]
    rintro ⟨id, hid⟩
    cases hid⟩
  obtain ⟨hleft, value, fault, hsame, hfault, rfl⟩ := hrestores error herror
  rw [hvalue] at hsame
  cases hsame
  rw [hread] at hfault
  cases hfault
  exact Prod.ext herror hleft

end ExtensionSet

/-- Where the update of a session fails, the session goes on with the set that the work in place has left. -/
theorem Session.after_update (session : Session) (subject : PublicKey) (issuer : Issuer) :
    (session.after (.update subject issuer)).current =
      ((ExtensionSet.updateInPlace subject issuer).on session.current).2 := by
  have hperform : session.perform (.update subject issuer) =
      (session.current.update subject issuer).map ({ session with current := · }) := rfl
  unfold after
  rw [hperform]
  cases hupdate : session.current.update subject issuer with
  | error error =>
    rw [ExtensionSet.on_updateInPlace_of_error hupdate]
    rfl
  | ok updated =>
    rw [ExtensionSet.update_eq_map_on] at hupdate
    obtain ⟨value, -, hleft⟩ := Reader.map_eq_ok hupdate
    exact hleft.symm

end CertExtensions
