import CertExtensions.Proofs.ExtensionSet.KeyIdentifiers

/-!
# Updates one after the other

The authority key identifier that an update writes can have fields that the old one did not have, and lack others, but
the one that takes its place has the fields that would have taken the place of the old one
(`authorityKeyIdentifier_successor`). So an update does to an updated set what it does to the set before
(`update_of_update`), and of several updates the last one counts (`foldlM_update`).
-/

namespace CertExtensions

open Asn1

/-! ### The authority key identifier after the next -/

namespace Issuer

variable {issuer : Issuer} {old : AuthorityKeyIdentifier}

private theorem keepsKey_successor : (issuer.successor old).keepsKey = old.keepsKey := by
  unfold successor
  rw [AuthorityKeyIdentifier.keepsKey]
  cases old.keepsKey <;> rfl

private theorem namesCertificate_successor : (issuer.successor old).namesCertificate = old.namesCertificate := by
  have hunnamed : old.keyIdentifier?.isSome = false → old.namesCertificate = true := by
    intro h
    rw [AuthorityKeyIdentifier.namesCertificate, ← Option.not_isSome, h]
    rfl
  unfold successor
  rw [AuthorityKeyIdentifier.namesCertificate, AuthorityKeyIdentifier.keepsKey]
  cases hkey : old.keyIdentifier?.isSome with
  | false => rw [hunnamed hkey]; rfl
  | true => cases old.namesCertificate <;> rfl

/-- Only the fields that are kept go from an authority key identifier into the next, and they stay the same. -/
theorem authorityKeyIdentifier_successor (later : Issuer) :
    later.authorityKeyIdentifier (issuer.successor old) = later.authorityKeyIdentifier old := by
  unfold authorityKeyIdentifier
  rw [keepsKey_successor, namesCertificate_successor]

end Issuer

/-! ### Two updates -/

namespace ExtensionSet

variable {set updated direct again : ExtensionSet} {subject laterSubject : PublicKey} {issuer laterIssuer : Issuer}

/-- Whether the authority key identifier, if there is one, has fewer than 2 to the 64 bytes, as a byte string in memory
has, so that the readers can count them. -/
def CountableAuthority (set : ExtensionSet) : Prop :=
  ∀ value, set.value? "2.5.29.35" = some value → value.length < wordLimit

instance : Decidable set.CountableAuthority :=
  decidable_of_iff ((set.value? "2.5.29.35").all (·.length < wordLimit)) <| by
    unfold CountableAuthority
    cases set.value? "2.5.29.35" <;> simp

theorem find?_update_eq_none (h : set.update subject issuer = .ok updated) {identifier : String}
    (hfind : set.find? identifier = none) : updated.find? identifier = none := by
  rcases find?_update h identifier with ⟨-, hupdated⟩ | ⟨extension, -, hset, -⟩
  · exact hupdated
  · rw [hfind] at hset
    cases hset

/-- What an update has written as authority key identifier can be read. -/
theorem readAuthorityKeyIdentifier_of_update (h : set.update subject issuer = .ok updated)
    (hsize : updated.CountableAuthority) {extension : Extension}
    (hfind : set.find? ExtensionType.authorityKeyIdentifier.identifier = some extension) :
    ∃ old value, Extension.readAuthorityKeyIdentifier extension.value = .ok old ∧
      updated.find? ExtensionType.authorityKeyIdentifier.identifier = some { extension with value } ∧
      Extension.readAuthorityKeyIdentifier value = .ok (issuer.successor old) := by
  obtain ⟨old, hread, hupdated⟩ := find?_update_authority h hfind
  refine ⟨old, _, hread, hupdated, ?_⟩
  have hvalue : updated.value? "2.5.29.35" = some (primitive .octetString (issuer.authorityKeyIdentifier old)) := by
    rw [value?_eq]
    exact congrArg (Option.map (·.value)) hupdated
  have hlength := hsize _ hvalue
  have hcontent := Nat.lt_trans (Element.length_content_lt .octetString false _) hlength
  unfold Extension.readAuthorityKeyIdentifier
  rw [octetString_whole hlength]
  exact Issuer.whole_authorityKeyIdentifier hcontent

private theorem update_of_updated (h : set.update subject issuer = .ok updated) (hsize : updated.CountableAuthority)
    (laterSubject : PublicKey) (laterIssuer : Issuer) :
    ∃ again, updated.update laterSubject laterIssuer = .ok again := by
  apply update_of_readable
  intro renewed hrenewed
  cases hfind : set.find? ExtensionType.authorityKeyIdentifier.identifier with
  | none =>
    rw [find?_update_eq_none h hfind] at hrenewed
    cases hrenewed
  | some extension =>
    obtain ⟨old, value, -, hupdated, hread⟩ := readAuthorityKeyIdentifier_of_update h hsize hfind
    rw [hupdated] at hrenewed
    cases hrenewed
    exact ⟨_, hread⟩

private theorem eq_of_update_of_update (h : set.update subject issuer = .ok updated)
    (hsize : updated.CountableAuthority) (hagain : updated.update laterSubject laterIssuer = .ok again)
    (hdirect : set.update laterSubject laterIssuer = .ok direct) : again = direct := by
  apply ext_find?
  intro identifier
  by_cases hsubject : identifier = ExtensionType.subjectKeyIdentifier.identifier
  · subst hsubject
    rw [find?_update_subject hagain, find?_update_subject h, find?_update_subject hdirect, Option.map_map]
    rfl
  by_cases hauthority : identifier = ExtensionType.authorityKeyIdentifier.identifier
  · subst hauthority
    cases hfind : set.find? ExtensionType.authorityKeyIdentifier.identifier with
    | none => rw [find?_update_eq_none hagain (find?_update_eq_none h hfind), find?_update_eq_none hdirect hfind]
    | some extension =>
      -- the second update reads the successor, the one without a first reads the old identifier
      obtain ⟨old, value, hold, hupdated, hread⟩ := readAuthorityKeyIdentifier_of_update h hsize hfind
      obtain ⟨old', hold', hlast⟩ := find?_update_authority hdirect hfind
      obtain ⟨successor, hsuccessor, hlast'⟩ := find?_update_authority hagain hupdated
      rw [hold] at hold'
      cases hold'
      rw [hread] at hsuccessor
      cases hsuccessor
      rw [hlast', hlast, Issuer.authorityKeyIdentifier_successor]
  · rw [find?_update_other hagain hsubject hauthority, find?_update_other h hsubject hauthority,
      find?_update_other hdirect hsubject hauthority]

/-- Updates of one set fail alike. -/
private theorem update_eq_error_of_error {error : Error} (h : set.update subject issuer = .error error)
    (laterSubject : PublicKey) (laterIssuer : Issuer) : set.update laterSubject laterIssuer = .error error :=
  update_eq_error_iff.mpr (update_eq_error_iff.mp h)

theorem update_of_update (h : set.update subject issuer = .ok updated) (hsize : updated.CountableAuthority)
    (laterSubject : PublicKey) (laterIssuer : Issuer) :
    updated.update laterSubject laterIssuer = set.update laterSubject laterIssuer := by
  obtain ⟨again, hagain⟩ := update_of_updated h hsize laterSubject laterIssuer
  cases hdirect : set.update laterSubject laterIssuer with
  | error error =>
    rw [update_eq_error_of_error hdirect subject issuer] at h
    cases h
  | ok direct => rw [hagain, eq_of_update_of_update h hsize hagain hdirect]

/-! ### Several updates -/

/-- A second update gives what it gives without the first, so the same update twice is that update once. It fails
where the first one does, with the same error. -/
theorem update_lastWins (set : ExtensionSet) (subject laterSubject : PublicKey) (issuer laterIssuer : Issuer) :
    (∀ updated, set.update subject issuer = .ok updated → updated.CountableAuthority →
      (∃ last, updated.update laterSubject laterIssuer = .ok last ∧
        set.update laterSubject laterIssuer = .ok last) ∧
      updated.update subject issuer = .ok updated) ∧
      ∀ error, set.update subject issuer = .error error → set.update laterSubject laterIssuer = .error error := by
  constructor
  · intro updated h hsize
    constructor
    · obtain ⟨last, hlast⟩ := update_of_updated h hsize laterSubject laterIssuer
      exact ⟨last, hlast, (update_of_update h hsize laterSubject laterIssuer).symm.trans hlast⟩
    · rw [update_of_update h hsize, h]
  · intro error h
    exact update_eq_error_of_error h laterSubject laterIssuer

/-- The first update names no certificate, as the old authority key identifier has no serial number; the second one is
for other keys. -/
theorem update_lastWins_keyOnly :
    let set := empty.insertAll [⟨"2.5.29.14", true, [5, 0]⟩, ⟨"2.5.29.35", false, [4, 5, 0x30, 3, 0x80, 1, 7]⟩]
    let updated := (set.update ⟨[4]⟩ sampleIssuer).toOption.getD ∅
    set.update ⟨[4]⟩ sampleIssuer = .ok updated ∧ updated.CountableAuthority ∧
      ∃ last, updated.update ⟨[6]⟩ { sampleIssuer with key := ⟨[7]⟩ } = .ok last ∧
        set.update ⟨[6]⟩ { sampleIssuer with key := ⟨[7]⟩ } = .ok last ∧ last ≠ updated := by
  intro set updated
  have h : set.update ⟨[4]⟩ sampleIssuer = .ok updated := rfl
  have hall : (updated.value? "2.5.29.35").all (·.length < wordLimit) := by decide
  have hsize : updated.CountableAuthority := by
    intro value hvalue
    rw [hvalue] at hall
    simpa using hall
  have hlast := (update_lastWins set ⟨[4]⟩ ⟨[6]⟩ sampleIssuer { sampleIssuer with key := ⟨[7]⟩ }).1 updated h hsize
  obtain ⟨⟨last, hagain, hdirect⟩, -⟩ := hlast
  refine ⟨h, hsize, last, hagain, hdirect, ?_⟩
  rintro rfl
  exact absurd hdirect (by decide +kernel)

/-- Of updates one after the other, the last one counts, if none of them alone writes too many bytes. -/
theorem foldlM_update (updates : List (PublicKey × Issuer)) (last : PublicKey × Issuer)
    (hsize : ∀ update ∈ updates, ∀ updated, set.update update.1 update.2 = .ok updated → updated.CountableAuthority) :
    (updates ++ [last]).foldlM (fun changed update => changed.update update.1 update.2) set =
      set.update last.1 last.2 := by
  induction updates generalizing set with
  | nil => exact bind_pure _
  | cons first updates ih =>
    rw [List.cons_append, List.foldlM_cons]
    cases hfirst : set.update first.1 first.2 with
    | error error => exact (update_eq_error_of_error hfirst last.1 last.2).symm
    | ok updated =>
      have hcountable := hsize first List.mem_cons_self updated hfirst
      refine (ih ?_).trans (update_of_update hfirst hcountable last.1 last.2)
      intro update hmem again hagain
      rw [update_of_update hfirst hcountable] at hagain
      exact hsize update (List.mem_cons_of_mem _ hmem) again hagain

end ExtensionSet

end CertExtensions
