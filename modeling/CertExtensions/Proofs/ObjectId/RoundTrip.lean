import CertExtensions.ExtensionSet.Der
import CertExtensions.Proofs.ObjectId.Dotted

/-!
# Arcs that come back

The text of a list of arcs is the identifier of an extension. `dotted_roundTrip` says what becomes of it when the
extension is encoded: the arcs of an object identifier come back as they were (`IsWellFormed`), and for any other list
the text is refused and reported as it stands.
-/

namespace CertExtensions.ObjectId

open Asn1

/-- Arcs that an object identifier can have: at least two, the first at most 2 and the second below 40 unless the first
is 2. Each arc fits a word. -/
structure IsWellFormed (arcs : List Nat) : Prop where
  front : ∃ first second rest, arcs = first :: second :: rest ∧ first ≤ 2 ∧ (first ≠ 2 → second < 40)
  fits : ∀ arc ∈ arcs, arc < 2 ^ 64

private theorem isRegistrable_iff {arcs : List Nat} :
    isRegistrable arcs ↔
      ∃ first second rest, arcs = first :: second :: rest ∧ first ≤ 2 ∧ (first ≠ 2 → second < 40) := by
  match arcs with
  | [] | [_] => simp [isRegistrable]
  | first :: second :: rest =>
    rw [isRegistrable, Bool.and_eq_true, Bool.or_eq_true, decide_eq_true_eq, beq_iff_eq, decide_eq_true_eq]
    constructor
    · rintro ⟨hfirst, hsecond⟩
      exact ⟨first, second, rest, rfl, hfirst, hsecond.resolve_left⟩
    · rintro ⟨_, _, _, heq, hfirst, hsecond⟩
      cases heq
      exact ⟨hfirst, Decidable.or_iff_not_imp_left.mpr hsecond⟩

private theorem isWellFormed_iff {arcs : List Nat} :
    IsWellFormed arcs ↔ isRegistrable arcs ∧ ∀ arc ∈ arcs, arc < wordLimit :=
  ⟨fun h => ⟨isRegistrable_iff.mpr h.front, h.fits⟩, fun h => ⟨isRegistrable_iff.mp h.1, h.2⟩⟩

instance : DecidablePred IsWellFormed := fun _ =>
  decidable_of_iff' _ isWellFormed_iff

/-- What is written for arcs is read back where an object identifier can have them, and is refused where none can: the
error has the text as it was written. Different arcs have different texts. -/
theorem dotted_roundTrip (arcs : List Nat) :
    (∀ critical value, (Extension.mk (dotted ⟨arcs⟩) critical value).objectId =
      if IsWellFormed arcs then .ok ⟨arcs⟩ else .error (.identifier (dotted ⟨arcs⟩))) ∧
      ∀ others, dotted ⟨others⟩ = dotted ⟨arcs⟩ ↔ others = arcs := by
  refine ⟨fun critical value => ?_, fun others => ?_⟩
  · simp only [Extension.objectId, ofDotted?_dotted_eq, ← isWellFormed_iff]
    by_cases h : IsWellFormed arcs
    · rw [if_pos h, if_pos h]
    · rw [if_neg h, if_neg h]
  · rw [dotted_injective.eq_iff, mk.injEq]

example : IsWellFormed [2, 40, 2 ^ 64 - 1] ∧ ¬IsWellFormed [2, 40, 2 ^ 64] ∧ ¬IsWellFormed [1, 40] := by
  decide

end CertExtensions.ObjectId
