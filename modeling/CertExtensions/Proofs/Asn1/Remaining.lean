import CertExtensions.Proofs.Asn1.ElementList
import CertExtensions.Proofs.Asn1.Shape

/-!
# What is left of a sequence

The elements that are left are read until there is none, and given back as one byte string. Each of them is found as it
stands, so that what has been read and what has not are the bytes that there were (`collect_any`). The loop may stop in
front of bytes that are no element, but then the sequence has bytes too many. So a sequence that has such a place at its
end gives all bytes from there on (`OpenSequence.keepsRest`). Elements are refused only for a tag number that does not
fit a word (`remaining_flatten`).
-/

open Computability

namespace CertExtensions.Asn1

variable {α β : Type} {bytes rest found : List UInt8}

/-! ### The loop -/

namespace Schema

/-- What the loop has read and what it has left are the bytes at its start, in their order. -/
theorem collect_any {fuel : Nat} {values : List (List UInt8)} (h : any.collect fuel bytes = .ok (values, rest)) :
    (∀ value ∈ values, value ∈ someElement) ∧ bytes = values.flatten ++ rest := by
  have hform : ∀ ⦃bytes value rest⦄, any.read bytes = .found value rest →
      ∃ front, (value ∈ someElement ∧ value = front) ∧ bytes = front ++ rest := by
    intro bytes value rest hread
    obtain ⟨hvalue, hbytes⟩ := mem_of_read_any hread
    exact ⟨value, ⟨hvalue, rfl⟩, hbytes⟩
  obtain ⟨fronts, hall, hbytes⟩ := forall₂_of_collect hform h
  obtain ⟨hmem, hsame⟩ := (List.forall₂_and_left _ _).mp hall
  rw [List.forall₂_eq_eq_eq] at hsame
  exact ⟨hmem, hsame ▸ hbytes⟩

private theorem read_any_of_mem {tag : Tag} {element : List UInt8} (hne : tag ≠ .universal 0)
    (h : element ∈ elementsOf tag) (hlt : element.length < wordLimit) (rest : List UInt8) :
    any.read (element ++ rest) =
      if tag.number < wordLimit then .found element rest else .failed .integerOverflow := by
  obtain ⟨form, content, length, hlength, rfl⟩ := h
  exact read_any (isIdentifier_encodeIdentifier ⟨tag, form⟩) hne hlength hlt rest

/-- Elements of these tags, none of which marks the end of contents. -/
def ElementsOf (tags : List Tag) (elements : List (List UInt8)) : Prop :=
  List.Forall₂ (fun tag element => tag ≠ .universal 0 ∧ element ∈ elementsOf tag ∧ element.length < wordLimit)
    tags elements

private theorem collect_any_flatten {tags : List Tag} {elements : List (List UInt8)} (h : ElementsOf tags elements)
    {fuel : Nat} (hfuel : elements.length ≤ fuel) :
    any.collect fuel elements.flatten =
      if ∀ tag ∈ tags, tag.number < wordLimit then .ok (elements, []) else .error .integerOverflow := by
  induction h generalizing fuel with
  | nil =>
    cases fuel with
    | zero => rfl
    | succ fuel => simp only [List.flatten_nil, collect, read_nil]; rfl
  | @cons tag element tags elements hfirst _ ih =>
    rw [List.length_cons] at hfuel
    obtain ⟨fuel, rfl⟩ : ∃ less, fuel = less + 1 := ⟨fuel - 1, by omega⟩
    obtain ⟨hne, helement, hlt⟩ := hfirst
    have hmore := ih (Nat.le_of_succ_le_succ hfuel)
    rw [List.flatten_cons, collect, read_any_of_mem hne helement hlt]
    by_cases hnumber : tag.number < wordLimit
    · by_cases hall : ∀ other ∈ tags, other.number < wordLimit
      · have hcons : ∀ other ∈ tag :: tags, other.number < wordLimit := List.forall_mem_cons.mpr ⟨hnumber, hall⟩
        rw [if_pos hall] at hmore
        simp only [hnumber, ↓reduceIte, hmore]
        rw [if_pos hcons]
      · have hcons : ¬∀ other ∈ tag :: tags, other.number < wordLimit := fun h => hall (List.forall_mem_cons.mp h).2
        rw [if_neg hall] at hmore
        simp only [hnumber, ↓reduceIte, hmore]
        rw [if_neg hcons]
    · have hcons : ¬∀ other ∈ tag :: tags, other.number < wordLimit := fun h => hnumber (List.forall_mem_cons.mp h).1
      simp only [hnumber, ↓reduceIte]
      rw [if_neg hcons]

end Schema

/-! ### All that is left -/

/-- What is given back is what has been read, and it is made of elements. -/
private theorem eq_of_remaining (h : remaining bytes = .ok (found, rest)) :
    bytes = found ++ rest ∧ found ∈ someElement∗ := by
  rw [remaining_eq] at h
  obtain ⟨values, after, hmany, hpure⟩ := Reader.step_of_bind_eq_ok h
  cases hpure
  obtain ⟨hall, hbytes⟩ := Schema.collect_any hmany
  exact ⟨hbytes, Language.mem_kstar.mpr ⟨values, rfl, hall⟩⟩

theorem remaining_flatten {tags : List Tag} {elements : List (List UInt8)} (h : Schema.ElementsOf tags elements) :
    remaining elements.flatten =
      if ∀ tag ∈ tags, tag.number < wordLimit then .ok (elements.flatten, []) else .error .integerOverflow := by
  have hany : ∀ element ∈ elements, element ∈ anyElement := by
    intro element hmem
    obtain ⟨tag, -, -, ⟨form, content, helement⟩, -⟩ := (Reader.mem_of_forall₂ h).2 element hmem
    exact mem_anyElement helement
  have hmany : Schema.any.many elements.flatten = _ :=
    Schema.collect_any_flatten h (length_le_length_flatten hany)
  rw [remaining_eq]
  by_cases hall : ∀ tag ∈ tags, tag.number < wordLimit
  · rw [if_pos hall] at hmany ⊢
    rw [Reader.bind_of_ok hmany]
    rfl
  · rw [if_neg hall] at hmany ⊢
    exact Reader.bind_of_error hmany

/-! ### Sequences with an open end -/

/-- A sequence that ends with whatever elements there are, unless its front says what follows. -/
structure OpenSequence (α β : Type) where
  front : Fields α
  /-- what follows a front that says it -/
  known? : α → Option (Fields β)
  make : α → List UInt8 → β

namespace OpenSequence

variable (s : OpenSequence α β)

def taggedType : TaggedType β :=
  .sequence do
    let head ← s.front
    match s.known? head with
    | some fields => fields
    | none => return s.make head (← remaining)

/-- Whether the type is this sequence, and gives all bytes behind the front back as they are wherever it is read. -/
structure KeepsRest (t : TaggedType β) : Prop where
  eq : t = s.taggedType
  kept : ∀ ⦃bytes value after⦄, t.schema.read bytes = .found value after →
    ∃ element before unread head, bytes = element ++ after ∧ IsElement .sequence true (before ++ unread) element ∧
      s.front (before ++ unread) = .ok (head, unread) ∧
      (s.known? head = none → remaining unread = .ok (unread, []) ∧ value = s.make head unread)

variable {s} {t : TaggedType β} {shape : Language UInt8}

theorem keepsRest (h : t = s.taggedType) (hfront : s.front.TakesOnly shape) : s.KeepsRest t := by
  refine ⟨h, fun bytes value after hread => ?_⟩
  rw [h] at hread
  obtain ⟨element, helement, -, rfl⟩ :=
    (TaggedType.read_eq_found_iff (show Tag.sequence.number < 31 by decide)).mp hread
  obtain ⟨content, hcontent, hdecode⟩ := TaggedType.isEncoding_ofComponents_iff.mp helement
  obtain ⟨head, unread, hhead, hbody⟩ := Reader.step_of_bind_eq_ok (Fields.exhaust_eq_ok_iff.mp hdecode)
  obtain ⟨before, -, rfl⟩ := hfront hhead
  refine ⟨element, before, unread, head, rfl, hcontent, hhead, fun hopen => ?_⟩
  simp only [hopen] at hbody
  obtain ⟨found, rest, hfound, hvalue⟩ := Reader.step_of_bind_eq_ok hbody
  cases hvalue
  -- the sequence is used up, so nothing is left behind what the loop has read
  obtain ⟨hunread, -⟩ := eq_of_remaining hfound
  rw [List.append_nil] at hunread
  rw [hunread] at hfound ⊢
  exact ⟨hfound, rfl⟩

end OpenSequence

end CertExtensions.Asn1
