import CertExtensions.Proofs.Asn1.Grammar

/-!
# Lists of elements

An element ends where its length says, so it is found, absent or malformed at a place whatever stands behind it
(`Schema.read_anyElement`). A list therefore gives what each of its elements gives as the only one, up to the first that
is not taken (`Schema.exhaust_collect`): there the list stops without a word, and what is left over is too much. So it
is for a sequence of elements of one kind (`TaggedType.whole_sequenceOf`).
-/

namespace CertExtensions.Asn1

variable {α : Type} {front bytes : List UInt8}

/-! ### One element -/

/-- All elements, whichever tag they have and in whichever form its number is given. -/
def anyElement : Language UInt8 :=
  {bytes | ∃ id identifier length content, IsIdentifier id identifier ∧ IsLength content.length length ∧
    bytes = identifier ++ (length ++ content)}

theorem mem_anyElement {tag : Tag} {form : Bool} {content : List UInt8} (h : IsElement tag form content bytes) :
    bytes ∈ anyElement := by
  obtain ⟨length, hlength, rfl⟩ := h
  exact ⟨⟨tag, form⟩, _, length, content, isIdentifier_encodeIdentifier _, hlength, rfl⟩

theorem ne_nil_of_mem_anyElement (h : front ∈ anyElement) : front ≠ [] := by
  obtain ⟨id, identifier, length, content, hid, -, rfl⟩ := h
  cases hid <;> exact List.cons_ne_nil _ _

theorem length_le_length_flatten {elements : List (List UInt8)} (h : ∀ element ∈ elements, element ∈ anyElement) :
    elements.length ≤ elements.flatten.length := by
  induction elements with
  | nil => exact Nat.le_refl 0
  | cons element elements ih =>
    have hpos := List.length_pos_iff.mpr (ne_nil_of_mem_anyElement (h element List.mem_cons_self))
    have hrest := ih fun other hother => h other (List.mem_cons_of_mem _ hother)
    rw [List.flatten_cons, List.length_append, List.length_cons]
    omega

namespace Schema

variable {s : Schema α}

/-- What a place makes of an element does not depend on what is behind it. -/
theorem read_anyElement (h : front ∈ anyElement) (hlt : front.length < wordLimit) (s : Schema α) :
    (∃ value, ∀ rest, s.read (front ++ rest) = .found value rest) ∨
      (∃ fault, ∀ rest, s.read (front ++ rest) = .absent fault) ∨
      ∃ fault, ∀ rest, s.read (front ++ rest) = .failed fault := by
  have hempty : ∀ rest, (front ++ rest).isEmpty = false := by
    intro rest
    rw [List.isEmpty_eq_false_iff]
    exact List.append_ne_nil_of_left_ne_nil (ne_nil_of_mem_anyElement h) rest
  obtain ⟨id, identifier, length, content, hid, hlength, rfl⟩ := h
  have hread : ∀ rest, readIdentifier (identifier ++ (length ++ content) ++ rest) =
      if id.tag.number < wordLimit then .ok (id, length ++ (content ++ rest)) else .error .integerOverflow := by
    intro rest
    rw [List.append_assoc, List.append_assoc]
    exact hid.read _
  by_cases hnumber : id.tag.number < wordLimit
  · simp only [hnumber, ↓reduceIte] at hread
    cases hs : s.decode? id.tag with
    | none => exact .inr (.inl ⟨.invalid, fun rest => by simp only [read, hread, hs]⟩)
    | some decode =>
      have hcomplete := Element.complete_of_isLength id hlength hlt
      cases hdecode : decode ⟨id.tag, id.constructed, content, identifier ++ (length ++ content)⟩ with
      | error fault => exact .inr (.inr ⟨fault, fun rest => by simp only [read, hread, hs, hcomplete, hdecode]⟩)
      | ok value => exact .inl ⟨value, fun rest => by simp only [read, hread, hs, hcomplete, hdecode]⟩
  · simp only [hnumber, ↓reduceIte] at hread
    -- a place that looks ahead takes an identifier that it cannot read for that of another element
    cases hahead : s.looksAhead with
    | false => exact .inr (.inr ⟨.integerOverflow, fun rest => by simp only [read, hread, hahead, hempty]; rfl⟩)
    | true => exact .inr (.inl ⟨.integerOverflow, fun rest => by simp only [read, hread, hahead]; rfl⟩)

private theorem read_anyElement_append (h : front ∈ anyElement) (hlt : front.length < wordLimit) (rest : List UInt8) :
    s.read (front ++ rest) = (s.read front).append rest := by
  rcases read_anyElement h hlt s with ⟨value, hread⟩ | ⟨fault, hread⟩ | ⟨fault, hread⟩
  all_goals
    have halone := hread []
    rw [List.append_nil] at halone
    rw [hread, halone]
    rfl

private theorem rest_of_read_anyElement (h : front ∈ anyElement) (hlt : front.length < wordLimit) {value : α}
    {rest : List UInt8} (hfound : s.read front = .found value rest) : rest = [] := by
  rw [← List.append_nil front] at hfound
  rcases read_anyElement h hlt s with ⟨other, hread⟩ | ⟨fault, hread⟩ | ⟨fault, hread⟩
  all_goals
    rw [hread] at hfound
    cases hfound
  rfl

/-! ### Elements behind each other -/

/-- What a list gives that has the element and no other: an element that is not taken is left over. -/
def alone (s : Schema α) (element : List UInt8) : Except Fault α :=
  match s.read element with
  | .found value _ => .ok value
  | .absent _ => .error .extra
  | .failed fault => .error fault

/-- Elements one behind the other give what each of them gives alone. -/
theorem exhaust_collect {elements : List (List UInt8)} (h : ∀ element ∈ elements, element ∈ anyElement)
    (hlt : elements.flatten.length < wordLimit) {fuel : Nat} (hfuel : elements.length ≤ fuel) :
    Fields.exhaust (s.collect fuel) elements.flatten = elements.mapM s.alone := by
  induction elements generalizing fuel with
  | nil =>
    cases fuel with
    | zero => rfl
    | succ fuel =>
      unfold Fields.exhaust StateT.run
      simp only [List.flatten_nil, collect, read_nil]
      rfl
  | cons element elements ih =>
    rw [List.length_cons] at hfuel
    obtain ⟨fuel, rfl⟩ : ∃ less, fuel = less + 1 := ⟨fuel - 1, by omega⟩
    rw [List.flatten_cons, List.length_append] at hlt
    have helement := h element List.mem_cons_self
    have hrest := ih (fun other hother => h other (List.mem_cons_of_mem _ hother)) (by omega)
      (Nat.le_of_succ_le_succ hfuel)
    unfold Fields.exhaust StateT.run at hrest ⊢
    rw [List.flatten_cons, List.mapM_cons, ← hrest, collect, read_anyElement_append helement (by omega), alone]
    cases hread : s.read element with
    | found value after =>
      obtain rfl := rest_of_read_anyElement helement (by omega) hread
      simp only [Outcome.append, List.nil_append]
      cases s.collect fuel elements.flatten with
      | error fault => rfl
      | ok result =>
        obtain ⟨values, rest⟩ := result
        cases rest <;> rfl
    | absent fault =>
      have hempty : (element ++ elements.flatten).isEmpty = false :=
        List.isEmpty_eq_false_iff.mpr (List.append_ne_nil_of_left_ne_nil (ne_nil_of_mem_anyElement helement) _)
      simp only [Outcome.append, hempty]
      rfl
    | failed fault => rfl

end Schema

/-- An element of the type's tag is left over nowhere. -/
theorem TaggedType.alone_of_isElement {t : TaggedType α} {form : Bool} {content : List UInt8}
    (hnumber : t.tag.number < wordLimit) (h : IsElement t.tag form content bytes) (hlt : bytes.length < wordLimit) :
    t.schema.alone bytes = t.whole bytes := by
  have hread := Schema.read_of_isElement decode?_schema_self hnumber h hlt []
  rw [List.append_nil] at hread
  unfold Schema.alone whole Schema.whole
  rw [hread]
  cases t.decode ⟨t.tag, form, content, bytes⟩ <;> rfl

/-! ### Sequences -/

/-- Sequences of the elements, in the given order. -/
def sequenceOfElements (elements : List (List UInt8)) : Language UInt8 :=
  node .sequence {elements.flatten}

theorem make_mem_sequenceOfElements {elements : List (List UInt8)} (hlt : elements.flatten.length < wordLimit) :
    (Element.make .sequence true elements.flatten).encoding ∈ sequenceOfElements elements :=
  make_mem_node (show elements.flatten ∈ ({elements.flatten} : Language UInt8) from rfl) hlt .sequence

/-- A sequence of components gives what they make of the content. -/
theorem TaggedType.whole_sequence_of_mem {fields : Fields α} {content : List UInt8}
    (h : bytes ∈ node .sequence {content}) (hlt : bytes.length < wordLimit) :
    (sequence fields).whole bytes = fields.exhaust content := by
  obtain ⟨content, rfl, helement⟩ := mem_node.mp h
  have hread := Schema.read_of_isElement (decode?_schema_self (t := sequence fields))
    (show Tag.sequence.number < wordLimit by decide) helement hlt []
  have hdecode : (sequence fields).decode ⟨(sequence fields).tag, true, content, bytes⟩ = fields.exhaust content := rfl
  rw [List.append_nil, hdecode] at hread
  unfold whole Schema.whole
  rw [hread]
  cases fields.exhaust content <;> rfl

/-- A sequence of elements is read if each of them is read alone, and has the fault of the first one that is not. -/
theorem TaggedType.whole_sequenceOf {s : Schema α} {elements : List (List UInt8)}
    (h : ∀ element ∈ elements, element ∈ anyElement) (hbytes : bytes ∈ sequenceOfElements elements)
    (hlt : bytes.length < wordLimit) : (sequenceOf s).whole bytes = elements.mapM s.alone := by
  obtain ⟨content, rfl, helement⟩ := mem_node.mp hbytes
  have hcontent := Nat.lt_trans helement.length_content_lt hlt
  exact (whole_sequence_of_mem hbytes hlt).trans (Schema.exhaust_collect h hcontent (length_le_length_flatten h))

end CertExtensions.Asn1
