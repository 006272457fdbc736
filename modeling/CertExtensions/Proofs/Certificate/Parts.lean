import CertExtensions.Certificate.Basic
import CertExtensions.Proofs.Asn1.Element

/-!
# What parts of certificates have read

A part that succeeds is a chain of parts that succeed (`of_bind_eq_some`), each with its conditions met
(`of_guard_eq_some`). What a sequence holds is read off its content (`inSequence_eq_some_iff`), and the next element is
there whole or not at all (`expect_eq_some_iff`).

In the other direction, `Reads` holds of parts and of the bytes that they take wherever these stand: an element in any
of its forms (`Reads.expect`), a sequence of what its content is read as (`Reads.inSequence`), and one thing behind the
other (`Reads.bind`, `Reads.all`).
-/

namespace CertExtensions.Parts

open Asn1

variable {α β : Type} {parts : Parts α} {next : α → Parts β} {bytes rest after : List UInt8} {value : α} {result : β}

/-! ### Chains -/

theorem bind_of_some (h : parts bytes = some (value, rest)) : (parts >>= next) bytes = next value rest := by
  change (parts bytes).bind (fun found => next found.1 found.2) = _
  rw [h]
  rfl

theorem of_bind_eq_some (h : (parts >>= next) bytes = some (result, after)) :
    ∃ value rest, parts bytes = some (value, rest) ∧ next value rest = some (result, after) := by
  obtain ⟨⟨value, rest⟩, hparts, hnext⟩ := Option.bind_eq_some_iff.mp h
  exact ⟨value, rest, hparts, hnext⟩

theorem guard_of_true {p : Prop} [Decidable p] (h : p) : (guard p : Parts Unit) bytes = some ((), bytes) := by
  rw [guard, if_pos h]
  rfl

theorem of_guard_eq_some {p : Prop} [Decidable p] {found : Unit}
    (h : (guard p : Parts Unit) bytes = some (found, rest)) : p ∧ rest = bytes := by
  by_cases hp : p
  · rw [guard_of_true hp] at h
    cases h
    exact ⟨hp, rfl⟩
  · rw [guard, if_neg hp] at h
    cases h

theorem of_lift_eq_some {found : Option α} (h : (liftM found : Parts α) bytes = some (value, rest)) :
    found = some value ∧ rest = bytes := by
  obtain ⟨content, hfound, hpure⟩ := Option.bind_eq_some_iff.mp h
  cases hpure
  exact ⟨hfound, rfl⟩

theorem within_eq_some_iff : parts.within bytes = some value ↔ ∃ rest, parts bytes = some (value, rest) := by
  rw [within, Option.map_eq_some_iff]
  constructor
  · rintro ⟨⟨found, rest⟩, hparts, rfl⟩
    exact ⟨rest, hparts⟩
  · rintro ⟨rest, hparts⟩
    exact ⟨(value, rest), hparts, rfl⟩

/-! ### Elements -/

theorem expect_eq_some_iff {tag : Tag} {constructed : Bool} {found : Element} :
    expect tag constructed bytes = some (found, rest) ↔
      element bytes = some (found, rest) ∧ found.tag = tag ∧ found.constructed = constructed := by
  constructor
  · intro h
    obtain ⟨next, behind, helement, hcheck⟩ := of_bind_eq_some h
    obtain ⟨_, _, hguard, hpure⟩ := of_bind_eq_some hcheck
    cases hpure
    obtain ⟨⟨htag, hform⟩, rfl⟩ := of_guard_eq_some hguard
    exact ⟨helement, htag, hform⟩
  · rintro ⟨helement, hform⟩
    rw [expect, bind_of_some helement, bind_of_some (guard_of_true hform)]
    rfl

theorem inSequence_eq_some_iff : inSequence parts bytes = some (value, rest) ↔
    ∃ found after, expect .sequence true bytes = some (found, rest) ∧ parts found.content = some (value, after) := by
  constructor
  · intro h
    obtain ⟨found, behind, hexpect, hlift⟩ := of_bind_eq_some h
    obtain ⟨hwithin, rfl⟩ := of_lift_eq_some hlift
    obtain ⟨after, hparts⟩ := within_eq_some_iff.mp hwithin
    exact ⟨found, after, hexpect, hparts⟩
  · rintro ⟨found, after, hexpect, hparts⟩
    rw [inSequence, bind_of_some hexpect]
    have hwithin : parts.within found.content = some value := within_eq_some_iff.mpr ⟨after, hparts⟩
    rw [hwithin]
    rfl

theorem header_of_element {found : Element} (h : element bytes = some (found, rest)) :
    ∃ length behind, header bytes = some ((⟨found.tag, found.constructed⟩, length), behind) := by
  unfold element at h
  split at h
  · cases h
  · next id length behind hheader =>
    split at h
    · cases h
    · cases h
      exact ⟨length, behind, hheader⟩

theorem readIdentifier_of_header {id : Identifier} {length : Nat} (h : header bytes = some ((id, length), rest)) :
    ∃ behind, readIdentifier bytes = .ok (id, behind) := by
  unfold header at h
  split at h
  · cases h
  · next found behind hid =>
    split at h
    · cases h
    · cases h
      exact ⟨behind, hid⟩

theorem optional_of_element {tag : Tag} {found : Element} (h : element bytes = some (found, rest)) :
    optional tag bytes = if found.tag = tag then some (some found, rest) else some (none, bytes) := by
  cases bytes with
  | nil => cases h
  | cons b bytes => simp only [optional, List.isEmpty_cons, Bool.false_eq_true, if_false, h]

/-- An optional element is there, or the next one, if there is one, has another tag. -/
theorem optional_eq_some {tag : Tag} {found? : Option Element} (h : optional tag bytes = some (found?, rest)) :
    found? = none ∧ rest = bytes ∨
      ∃ found, found? = some found ∧ element bytes = some (found, rest) ∧ found.tag = tag := by
  unfold optional at h
  split at h
  · cases h
    exact .inl ⟨rfl, rfl⟩
  · split at h
    · cases h
    · next found behind helement =>
      split at h
      · next htag =>
        cases h
        exact .inr ⟨found, rfl, helement, htag⟩
      · cases h
        exact .inl ⟨rfl, rfl⟩

/-! ### Elements in any of their forms -/

theorem header_of_isElement {tag : Tag} {form : Bool} {content front : List UInt8}
    (h : IsElement tag form content front) (hnumber : tag.number < wordLimit) (hlt : content.length < wordLimit)
    (rest : List UInt8) : header (front ++ rest) = some ((⟨tag, form⟩, content.length), content ++ rest) := by
  obtain ⟨length, hlength, rfl⟩ := h
  simp only [List.append_assoc, header, readIdentifier_encodeIdentifier ⟨tag, form⟩ hnumber,
    readLength_of_isLength hlength hlt]

theorem element_of_isElement {tag : Tag} {form : Bool} {content front : List UInt8}
    (h : IsElement tag form content front) (hnumber : tag.number < wordLimit) (hlt : content.length < wordLimit)
    (rest : List UInt8) : element (front ++ rest) = some (⟨tag, form, content, front⟩, rest) := by
  have hend : ¬(content ++ rest).length < content.length := by
    rw [List.length_append]
    omega
  simp only [element, header_of_isElement h hnumber hlt rest, if_neg hend, List.take_left, List.drop_left]
  rw [List.length_append, Nat.add_sub_cancel, List.take_left]

/-- The parts take these bytes, whatever follows, and give the value. -/
def Reads (parts : Parts α) (value : α) (front : List UInt8) : Prop :=
  ∀ rest, parts (front ++ rest) = some (value, rest)

variable {front more : List UInt8}

theorem Reads.bind (h : Reads parts value front) (hnext : Reads (next value) result more) :
    Reads (parts >>= next) result (front ++ more) := by
  intro rest
  rw [List.append_assoc, bind_of_some (h _), hnext rest]

theorem Reads.expect {tag : Tag} {form : Bool} {content : List UInt8} (h : IsElement tag form content front)
    (hnumber : tag.number < wordLimit) (hlt : content.length < wordLimit) :
    Reads (Parts.expect tag form) ⟨tag, form, content, front⟩ front := fun rest =>
  expect_eq_some_iff.mpr ⟨element_of_isElement h hnumber hlt rest, rfl, rfl⟩

/-- What parts of a content give is read wherever a sequence of this content stands. -/
theorem reads_inSequence {content : List UInt8} (h : parts.within content = some value)
    (helement : IsElement .sequence true content front) (hlt : content.length < wordLimit) :
    Reads (Parts.inSequence parts) value front := fun rest =>
  have ⟨after, hparts⟩ := within_eq_some_iff.mp h
  inSequence_eq_some_iff.mpr ⟨_, after, Reads.expect helement (by decide) hlt rest, hparts⟩

theorem Reads.inSequence {content : List UInt8} (h : Reads parts value content)
    (helement : IsElement .sequence true content front) (hlt : content.length < wordLimit) :
    Reads (Parts.inSequence parts) value front := by
  have hcontent := h []
  rw [List.append_nil] at hcontent
  exact reads_inSequence (within_eq_some_iff.mpr ⟨[], hcontent⟩) helement hlt

/-- Parts that take the bytes of each value use up the bytes of all of them. -/
theorem Reads.all {values : List α} {fronts : List (List UInt8)}
    (h : List.Forall₂ (fun value front => front ≠ [] ∧ Reads parts value front) values fronts) :
    Parts.all parts fronts.flatten = some values := by
  -- every part takes a byte, so the fuel lasts
  suffices hexhaust : ∀ fuel, fronts.flatten.length ≤ fuel → exhaust parts fuel fronts.flatten = some values from
    hexhaust _ (Nat.le_refl _)
  induction h with
  | nil =>
    intro fuel _
    rw [List.flatten_nil, exhaust.eq_1]
  | @cons value front values fronts hfirst _ ih =>
    intro fuel hfuel
    obtain ⟨hne, hreads⟩ := hfirst
    obtain ⟨b, front, rfl⟩ := List.exists_cons_of_ne_nil hne
    rw [List.flatten_cons, List.length_append, List.length_cons] at hfuel
    obtain ⟨fuel, rfl⟩ : ∃ less, fuel = less + 1 := ⟨fuel - 1, by omega⟩
    have hfirst := hreads fronts.flatten
    rw [List.cons_append] at hfirst
    rw [List.flatten_cons, List.cons_append, exhaust]
    simp only [hfirst, ih fuel (by omega), Option.map_some]

end CertExtensions.Parts
