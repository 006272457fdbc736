import CertExtensions.Proofs.ExtensionSet.NormalForm

/-!
# When a set can be encoded

The encoding of a set fails in two ways. An identifier may be no dotted object identifier, which is told with the first
such identifier; or an object identifier may have first arcs that cannot be joined in one number, which is no error but
an abort. These are the object identifiers under arc 2 with a second arc from 2 to the 64 less 81 on
(`encode?_eq_none_iff`), and the reader gives the smallest of them (`unjoinable_iff_of_readable`). What becomes of a set,
and of a set that has been read, is `toDer_outcome`.
-/

namespace CertExtensions

open Asn1

/-! ### Object identifiers without an encoding -/

namespace ObjectId

/-- Whether the first two arcs are too large to be joined in one number. -/
def Unjoinable (id : ObjectId) : Prop :=
  ∃ second rest, id.arcs = 2 :: second :: rest ∧ 2 ^ 64 - 81 ≤ second

variable {id : ObjectId}

private theorem secondArcLimit_eq : secondArcLimit = 2 ^ 64 - 81 := by decide

theorem encode?_eq_none_iff (h : isRegistrable id.arcs) : id.encode? = none ↔ id.Unjoinable := by
  obtain ⟨arcs⟩ := id
  match arcs with
  | [] | [_] => cases h
  | first :: second :: rest =>
    have hnone : encode? ⟨first :: second :: rest⟩ = none ↔ secondArcLimit ≤ second := by
      simp only [encode?, ite_eq_right_iff, reduceCtorEq, imp_false, Nat.not_lt]
    rw [hnone, secondArcLimit_eq]
    constructor
    · intro hle
      -- only under arc 2 can the second arc be so large
      simp only [isRegistrable, Bool.and_eq_true, Bool.or_eq_true, decide_eq_true_eq, beq_iff_eq] at h
      obtain rfl : first = 2 := by omega
      exact ⟨second, rest, rfl, hle⟩
    · rintro ⟨other, more, harcs, hle⟩
      cases harcs
      exact hle

/-- The one second arc that the reader gives and the writer does not take. -/
theorem unjoinable_iff_of_readable (h : id.Readable) :
    id.Unjoinable ↔ ∃ rest, id.arcs = 2 :: (2 ^ 64 - 81) :: rest := by
  constructor
  · rintro ⟨second, rest, harcs, hle⟩
    have hjoined : 40 * 2 + second < wordLimit := by
      refine h.fits _ ?_
      rw [numbers, harcs]
      exact List.mem_cons_self
    unfold wordLimit at hjoined
    obtain rfl : second = 2 ^ 64 - 81 := by omega
    exact ⟨rest, harcs⟩
  · rintro ⟨rest, harcs⟩
    exact ⟨_, rest, harcs, Nat.le_refl _⟩

end ObjectId

namespace ExtensionSet

variable {set : ExtensionSet} {bytes : List UInt8}

private theorem encode?_parsedId_iff (h : set.firstUndotted? = none) {extension : Extension}
    (hmem : extension ∈ set.toList) :
    extension.parsedId.encode? = none ↔ extension.parsedId.Unjoinable :=
  ObjectId.encode?_eq_none_iff (ObjectId.ofDotted?_spec (ofDotted?_of_firstUndotted? h hmem)).1

/-! ### What becomes of a set -/

private theorem toDer_cases (set : ExtensionSet) :
    (∃ rejected, set.firstUndotted? = some rejected ∧ set.toDer = .error (.identifier rejected.identifier)) ∨
      set.firstUndotted? = none ∧
        ((∃ extension ∈ set.toList, extension.parsedId.Unjoinable) ∧ set.toDer = .error .arcOverflow ∨
          (∀ extension ∈ set.toList, ¬extension.parsedId.Unjoinable) ∧
            set.toDer = .ok (constructed .sequence (set.toList.flatMap Extension.encoding))) := by
  have htoDer := set.toDer_eq
  cases hfirst : set.firstUndotted? with
  | some rejected =>
    rw [hfirst] at htoDer
    exact .inl ⟨rejected, rfl, htoDer⟩
  | none =>
    refine .inr ⟨rfl, ?_⟩
    have hiff : (∃ extension ∈ set.toList, extension.parsedId.encode? = none) ↔
        ∃ extension ∈ set.toList, extension.parsedId.Unjoinable :=
      exists_congr fun extension => and_congr_right fun hmem => encode?_parsedId_iff hfirst hmem
    rw [hfirst] at htoDer
    dsimp only at htoDer
    by_cases hunjoinable : ∃ extension ∈ set.toList, extension.parsedId.Unjoinable
    · rw [if_pos (hiff.mpr hunjoinable)] at htoDer
      exact .inl ⟨hunjoinable, htoDer⟩
    · rw [if_neg (mt hiff.mp hunjoinable)] at htoDer
      exact .inr ⟨fun extension hmem h => hunjoinable ⟨extension, hmem, h⟩, htoDer⟩

private theorem toDer_eq_identifier_iff {text : String} :
    set.toDer = .error (.identifier text) ↔ set.firstUndotted?.map (·.identifier) = some text := by
  obtain ⟨rejected, hfirst, htoDer⟩ | ⟨hfirst, ⟨-, htoDer⟩ | ⟨-, htoDer⟩⟩ := set.toDer_cases
  · rw [htoDer, hfirst, Except.error.injEq, Error.identifier.injEq, Option.map_some, Option.some.injEq]
  · rw [htoDer, hfirst]
    simp
  · rw [htoDer, hfirst]
    simp

private theorem toDer_eq_arcOverflow_iff :
    set.toDer = .error .arcOverflow ↔
      set.firstUndotted? = none ∧ ∃ extension ∈ set.toList, extension.parsedId.Unjoinable := by
  obtain ⟨rejected, hfirst, htoDer⟩ | ⟨hfirst, ⟨hunjoinable, htoDer⟩ | ⟨hjoinable, htoDer⟩⟩ := set.toDer_cases
  · rw [htoDer, hfirst]
    simp
  · rw [htoDer]
    exact iff_of_true rfl ⟨hfirst, hunjoinable⟩
  · rw [htoDer]
    refine iff_of_false (by simp) ?_
    rintro ⟨-, extension, hmem, h⟩
    exact hjoinable extension hmem h

private theorem exists_toDer_eq_ok_iff :
    (∃ der, set.toDer = .ok der) ↔
      set.firstUndotted? = none ∧ ∀ extension ∈ set.toList, ¬extension.parsedId.Unjoinable := by
  obtain ⟨rejected, hfirst, htoDer⟩ | ⟨hfirst, ⟨⟨extension, hmem, h⟩, htoDer⟩ | ⟨hjoinable, htoDer⟩⟩ :=
    set.toDer_cases
  · rw [htoDer, hfirst]
    simp
  · rw [htoDer]
    refine iff_of_false (by simp) ?_
    rintro ⟨-, hjoinable⟩
    exact hjoinable extension hmem h
  · rw [htoDer]
    exact iff_of_true ⟨_, rfl⟩ ⟨hfirst, hjoinable⟩

private theorem firstUndotted?_of_fromDer (h : fromDer bytes = .ok set) : set.firstUndotted? = none := by
  refine List.find?_eq_none.mpr fun extension hmem => ?_
  obtain ⟨id, hreadable, hid⟩ := readable_of_fromDer h hmem
  rw [hid, ObjectId.ofDotted?_dotted hreadable.registrable hreadable.arcs_lt]
  exact Bool.false_ne_true

private theorem unjoinable_iff_of_fromDer (h : fromDer bytes = .ok set) {extension : Extension}
    (hmem : extension ∈ set.toList) :
    extension.parsedId.Unjoinable ↔ ∃ rest, extension.identifier = ObjectId.dotted ⟨2 :: (2 ^ 64 - 81) :: rest⟩ := by
  obtain ⟨id, hreadable, hid⟩ := readable_of_fromDer h hmem
  have hdotted := ObjectId.ofDotted?_dotted hreadable.registrable hreadable.arcs_lt
  rw [← hid] at hdotted
  rw [Extension.parsedId_eq hdotted, ObjectId.unjoinable_iff_of_readable hreadable, hid]
  refine exists_congr fun rest => ?_
  rw [ObjectId.dotted_injective.eq_iff]
  exact ⟨fun harcs => congrArg ObjectId.mk harcs, fun heq => congrArg ObjectId.arcs heq⟩

/-- A set is encoded, or refused with the first identifier that is no dotted object identifier, or the encoding is
aborted: it is exactly where all identifiers are dotted ones and the first two arcs of one of them cannot be joined. In a
set that has been read from bytes just one second arc can be so large, which the reader takes. -/
theorem toDer_outcome (set : ExtensionSet) :
    (∀ text, set.toDer = .error (.identifier text) ↔ set.firstUndotted?.map (·.identifier) = some text) ∧
      (set.toDer = .error .arcOverflow ↔
        set.firstUndotted? = none ∧ ∃ extension ∈ set.toList, extension.parsedId.Unjoinable) ∧
      ((∃ der, set.toDer = .ok der) ↔
        set.firstUndotted? = none ∧ ∀ extension ∈ set.toList, ¬extension.parsedId.Unjoinable) ∧
      (∀ error, set.toDer = .error error → error = .arcOverflow ∨ ∃ text, error = .identifier text) ∧
      (∀ der, set.toDer = .ok der → ∀ extension ∈ set.toList, ∀ n ∈ extension.parsedId.numbers, n < 2 ^ 64) ∧
      ∀ bytes, fromDer bytes = .ok set →
        set.firstUndotted? = none ∧
          (set.toDer = .error .arcOverflow ↔
            ∃ extension ∈ set.toList, ∃ rest, extension.identifier = ObjectId.dotted ⟨2 :: (2 ^ 64 - 81) :: rest⟩) := by
  refine ⟨fun text => toDer_eq_identifier_iff, toDer_eq_arcOverflow_iff, exists_toDer_eq_ok_iff, ?_, ?_, ?_⟩
  · intro error herror
    obtain ⟨rejected, -, htoDer⟩ | ⟨-, ⟨-, htoDer⟩ | ⟨-, htoDer⟩⟩ := set.toDer_cases
    · rw [htoDer] at herror
      cases herror
      exact .inr ⟨_, rfl⟩
    · rw [htoDer] at herror
      cases herror
      exact .inl rfl
    · rw [htoDer] at herror
      cases herror
  · intro der hder extension hmem
    obtain ⟨id, content, hid, hcontent⟩ := (toDer_eq_ok hder).2 extension hmem
    rw [Extension.parsedId_eq hid]
    exact ObjectId.numbers_lt_of_encode? hid hcontent
  · intro bytes h
    have hfirst := firstUndotted?_of_fromDer h
    refine ⟨hfirst, ?_⟩
    rw [toDer_eq_arcOverflow_iff, and_iff_right hfirst]
    exact exists_congr fun extension => and_congr_right fun hmem => unjoinable_iff_of_fromDer h hmem

/-- A sequence of one extension whose identifier has the largest joined number that is read. -/
def largestNumber : List UInt8 :=
  [0x30, 0x10, 0x30, 0x0e, 0x06, 0x0a, 0x81, 0xff, 0xff, 0xff, 0xff, 0xff, 0xff, 0xff, 0xff, 0x7f, 0x04, 0x00]

/-- A set that has been read need not have an encoding. -/
theorem toDer_largestNumber :
    let set := empty.insert ⟨"2.18446744073709551535", false, [4, 0]⟩
    fromDer largestNumber = .ok set ∧
      (∀ extension ∈ set.toList, (ObjectId.ofDotted? extension.identifier).isSome) ∧
      set.toDer = .error .arcOverflow := by
  decide

theorem toDer_outcome_largestNumber :
    let set := empty.insert ⟨"2.18446744073709551535", false, [4, 0]⟩
    fromDer largestNumber = .ok set ∧
      ∃ extension ∈ set.toList, ∃ rest, extension.identifier = ObjectId.dotted ⟨2 :: (2 ^ 64 - 81) :: rest⟩ := by
  intro set
  have h : fromDer largestNumber = .ok set := rfl
  have htoDer : set.toDer = .error .arcOverflow := rfl
  have houtcome := set.toDer_outcome
  exact ⟨h, (houtcome.2.2.2.2.2 largestNumber h).2.mp htoDer⟩

end ExtensionSet

end CertExtensions
