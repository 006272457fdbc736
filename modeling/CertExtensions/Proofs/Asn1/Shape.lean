import CertExtensions.Proofs.Asn1.Grammar

/-!
# What readers refuse

The *shape* of a type is a language that says no more of an element than which elements are in it. A place finds only
elements of the shape of its schema (`Schema.FindsOnly`), and fields take only bytes of theirs (`Fields.TakesOnly`),
where the shapes of types are built as the types are: a sequence of fields is a product, an optional field is a sum with
no bytes, and elements of one kind are a star.

A list is refused wherever in it there is an element that its place refuses (`TaggedType.sequenceOf_refuses`), because
each element in front is found as a whole or not at all (`Schema.decode_of_found`).
-/

open Computability

namespace CertExtensions.Asn1

variable {α β : Type} {bytes front content rest : List UInt8} {shape other : Language UInt8} {value : α}

/-! ### Places -/

/-- Whether all that the place finds is of the language. -/
def Schema.FindsOnly (s : Schema α) (shape : Language UInt8) : Prop :=
  ∀ ⦃bytes value rest⦄, s.read bytes = .found value rest → ∃ front ∈ shape, bytes = front ++ rest

/-- Whether all that the fields take is of the language. -/
def Fields.TakesOnly (fields : Fields α) (shape : Language UInt8) : Prop :=
  ∀ ⦃bytes value rest⦄, fields bytes = .ok (value, rest) → ∃ front ∈ shape, bytes = front ++ rest

private theorem append_mem_kstar (hfront : front ∈ shape) (hrest : rest ∈ shape∗) : front ++ rest ∈ shape∗ :=
  (mul_kstar_le_kstar : shape * shape∗ ≤ shape∗) (Language.append_mem_mul hfront hrest)

namespace Schema.FindsOnly

variable {s : Schema α}

theorem mono (h : s.FindsOnly shape) (hle : shape ≤ other) : s.FindsOnly other := by
  intro bytes value rest hread
  obtain ⟨front, hfront, hbytes⟩ := h hread
  exact ⟨front, hle hfront, hbytes⟩

theorem whole (h : s.FindsOnly shape) (hwhole : s.whole bytes = .ok value) : bytes ∈ shape := by
  obtain ⟨front, hfront, rfl⟩ := h (whole_eq_ok_iff.mp hwhole)
  rwa [List.append_nil]

theorem required (h : s.FindsOnly shape) : Fields.TakesOnly s.required shape :=
  fun _ _ _ hread => h (required_eq_ok_iff.mp hread)

theorem optional (h : s.FindsOnly shape) : Fields.TakesOnly s.optional (1 + shape) := by
  intro bytes value? rest hread
  obtain ⟨rfl, rfl⟩ | ⟨value, rfl, hfound⟩ := optional_cases hread
  · exact ⟨[], Or.inl Language.nil_mem_one, rfl⟩
  · obtain ⟨front, hfront, hbytes⟩ := h hfound
    exact ⟨front, Or.inr hfront, hbytes⟩

private theorem collect (h : s.FindsOnly shape) {fuel : Nat} {values : List α}
    (hread : s.collect fuel bytes = .ok (values, rest)) : ∃ front ∈ shape∗, bytes = front ++ rest := by
  obtain ⟨fronts, hall, hbytes⟩ := Schema.forall₂_of_collect h hread
  refine ⟨fronts.flatten, Language.mem_kstar.mpr ⟨fronts, rfl, fun front hfront => ?_⟩, hbytes⟩
  obtain ⟨value, -, hshape⟩ := (Reader.mem_of_forall₂ hall).2 front hfront
  exact hshape

private theorem many (h : s.FindsOnly shape) : Fields.TakesOnly s.many shape∗ :=
  fun _ _ _ hread => h.collect hread

private theorem collectAscending (h : s.FindsOnly shape) {fuel : Nat} {previous : List UInt8} {values : List α}
    (hread : s.collectAscending fuel previous bytes = .ok (values, rest)) :
    ∃ front ∈ shape∗, bytes = front ++ rest := by
  induction fuel generalizing bytes previous values with
  | zero =>
    cases hread
    exact ⟨[], Language.nil_mem_kstar shape, rfl⟩
  | succ fuel ih =>
    rw [Schema.collectAscending] at hread
    cases hfound : s.read bytes with
    | absent fault =>
      rw [hfound] at hread
      cases hread
      exact ⟨[], Language.nil_mem_kstar shape, rfl⟩
    | failed fault =>
      rw [hfound] at hread
      cases hread
    | found found after =>
      obtain ⟨front, hfront, rfl⟩ := h hfound
      simp only [hfound, List.length_append, Nat.add_sub_cancel, List.take_left] at hread
      split at hread
      · cases hread
      · cases hmore : s.collectAscending fuel front after with
        | error fault =>
          simp only [hmore] at hread
          cases hread
        | ok result =>
          simp only [hmore] at hread
          cases hread
          obtain ⟨more, hall, rfl⟩ := ih hmore
          exact ⟨front ++ more, append_mem_kstar hfront hall, (List.append_assoc ..).symm⟩

end Schema.FindsOnly

/-- What is found is one element in one of its forms, and the content reader of its tag has taken it. -/
private theorem Schema.element_of_found {s : Schema α} (h : s.read bytes = .found value rest) :
    ∃ id identifier length content decode, IsIdentifier id identifier ∧ id.tag.number < wordLimit ∧
      IsLength content.length length ∧ bytes = identifier ++ (length ++ content) ++ rest ∧
      s.decode? id.tag = some decode ∧
      decode ⟨id.tag, id.constructed, content, identifier ++ (length ++ content)⟩ = .ok value := by
  obtain ⟨id, behind, element, decode, hid, hs, hcomplete, hdecode⟩ := complete_of_found h
  obtain ⟨hnumber, identifier, hidentifier, rfl⟩ := isIdentifier_of_read hid
  obtain ⟨length, content, hlength, rfl, -, rfl⟩ := Element.complete_eq_ok hcomplete
  refine ⟨id, identifier, length, content, decode, hidentifier, hnumber, hlength, ?_, hs, hdecode⟩
  simp only [List.append_assoc]

theorem Schema.findsOnly_top (s : Schema α) : s.FindsOnly ⊤ := by
  intro bytes value rest hread
  obtain ⟨id, identifier, length, content, decode, -, -, -, hbytes, -, -⟩ := element_of_found hread
  exact ⟨_, trivial, hbytes⟩

/-- An element of any kind is found as it stands. -/
theorem Schema.mem_of_read_any {value : List UInt8} (h : any.read bytes = .found value rest) :
    value ∈ someElement ∧ bytes = value ++ rest := by
  obtain ⟨id, identifier, length, content, decode, hid, hnumber, hlength, hbytes, hs, hdecode⟩ := element_of_found h
  by_cases hne : id.tag = .universal 0
  · simp [any, hne] at hs
  · simp only [any, hne, ↓reduceIte, Option.some.injEq] at hs
    subst hs
    cases hdecode
    exact ⟨⟨id, identifier, length, content, hid, hne, hnumber, hlength, rfl⟩, hbytes⟩

theorem Schema.findsOnly_any : Schema.any.FindsOnly someElement :=
  fun _ value _ hread => ⟨value, mem_of_read_any hread⟩

/-! ### Fields -/

namespace Fields.TakesOnly

variable {fields : Fields α}

theorem pure (value : α) : TakesOnly (pure value) 1 := by
  intro bytes found rest h
  cases h
  exact ⟨[], Language.nil_mem_one, rfl⟩

theorem bind {next : α → Fields β} (h : fields.TakesOnly shape) (hnext : ∀ value, (next value).TakesOnly other) :
    (fields >>= next).TakesOnly (shape * other) := by
  intro bytes result after hread
  obtain ⟨value, rest, hfields, hnextRead⟩ := Reader.step_of_bind_eq_ok hread
  obtain ⟨front, hfront, rfl⟩ := h hfields
  obtain ⟨more, hmore, rfl⟩ := hnext value hnextRead
  exact ⟨front ++ more, Language.append_mem_mul hfront hmore, (List.append_assoc ..).symm⟩

/-- The last fields of all. -/
theorem bind_pure (h : fields.TakesOnly shape) (f : α → β) :
    (fields >>= fun value => Pure.pure (f value)).TakesOnly shape := by
  have hbind := h.bind fun value => pure (f value)
  rwa [mul_one] at hbind

theorem exhaust (h : fields.TakesOnly shape) (hread : fields.exhaust content = .ok value) : content ∈ shape := by
  obtain ⟨front, hfront, rfl⟩ := h (exhaust_eq_ok_iff.mp hread)
  rwa [List.append_nil]

end Fields.TakesOnly

theorem takesOnly_remaining : Fields.TakesOnly remaining someElement∗ :=
  Schema.findsOnly_any.many.bind_pure List.flatten

/-! ### Types -/

namespace TaggedType

variable {tag : Tag} {decode : List UInt8 → Except Fault α} {contents : Language UInt8} {fields : Fields α}
  {s : Schema α} {t : TaggedType α}

theorem findsOnly_ofContent (hnumber : tag.number < 31)
    (h : ∀ value content, decode content = .ok value → content ∈ contents) :
    (ofContent tag decode).schema.FindsOnly (leaf tag contents) := by
  intro bytes value rest hread
  obtain ⟨front, hfront, -, rfl⟩ := (read_eq_found_iff hnumber).mp hread
  obtain ⟨content, helement, hdecode⟩ := isEncoding_ofContent_iff.mp hfront
  exact ⟨front, ⟨content, h value content hdecode, helement⟩, rfl⟩

private theorem findsOnly_ofComponents (hnumber : tag.number < 31)
    (h : ∀ value content, decode content = .ok value → content ∈ contents) :
    (ofComponents tag decode).schema.FindsOnly (node tag contents) := by
  intro bytes value rest hread
  obtain ⟨front, hfront, -, rfl⟩ := (read_eq_found_iff hnumber).mp hread
  obtain ⟨content, helement, hdecode⟩ := isEncoding_ofComponents_iff.mp hfront
  exact ⟨front, ⟨content, h value content hdecode, helement⟩, rfl⟩

theorem findsOnly_fields (hnumber : tag.number < 31) (h : fields.TakesOnly contents) :
    (ofComponents tag fields.exhaust).schema.FindsOnly (node tag contents) :=
  findsOnly_ofComponents hnumber fun _ _ hread => h.exhaust hread

theorem findsOnly_sequence (h : fields.TakesOnly contents) :
    (sequence fields).schema.FindsOnly (node .sequence contents) :=
  findsOnly_fields (show Tag.sequence.number < 31 by decide) h

theorem findsOnly_sequenceOf (h : s.FindsOnly shape) : (sequenceOf s).schema.FindsOnly (node .sequence shape∗) :=
  findsOnly_sequence h.many

theorem findsOnly_setOf (h : s.FindsOnly shape) : (setOf s).schema.FindsOnly (node .set shape∗) :=
  findsOnly_fields (show Tag.set.number < 31 by decide) fun _ _ _ hread => h.collectAscending hread

theorem findsOnly_explicit (hnumber : tag.number < 31) (h : s.FindsOnly shape) :
    (explicit tag s).schema.FindsOnly (node tag shape) :=
  findsOnly_ofComponents hnumber fun _ _ hwhole => h.whole hwhole

theorem findsOnly_undecoded (hnumber : tag.number < 31) : (undecoded tag).schema.FindsOnly (elementsOf tag) := by
  intro bytes value rest hread
  obtain ⟨front, ⟨form, content, helement, -⟩, -, rfl⟩ := (read_eq_found_iff hnumber).mp hread
  exact ⟨front, ⟨form, content, helement⟩, rfl⟩

theorem findsOnly_map (h : t.schema.FindsOnly shape) (f : α → β) : (t.map f).schema.FindsOnly shape := by
  intro bytes value rest hread
  obtain ⟨found, hfound, -⟩ := read_map_eq_found_iff.mp hread
  exact h hfound

end TaggedType

theorem Schema.findsOnly_choice {types : List (TaggedType α)} (h : ∀ t ∈ types, t.schema.FindsOnly shape) :
    (choice types).FindsOnly shape := by
  intro bytes value rest hread
  obtain ⟨t, ht, hfound⟩ := found_of_read_choice hread
  exact h t ht hfound

/-- A choice has the shapes of the types to choose from. -/
theorem Schema.findsOnly_choice_forms {types : List (TaggedType α)} {forms : List (Language UInt8)}
    (h : List.Forall₂ (fun t form => t.schema.FindsOnly form) types forms) :
    (choice types).FindsOnly (⨆ form ∈ forms, form) := by
  refine findsOnly_choice fun t ht => ?_
  obtain ⟨form, hform, hfinds⟩ := (Reader.mem_of_forall₂ h).1 t ht
  exact hfinds.mono (le_iSup₂_of_le form hform le_rfl)

/-! ### Elements of a list -/

/-- An element that is found is found as a whole, by the content reader of its tag. -/
theorem Schema.decode_of_found {s : Schema α} {tag : Tag} {form : Bool} (h : IsElement tag form content front)
    (hlt : front.length < wordLimit) (hread : s.read (front ++ rest) = .found value bytes) :
    bytes = rest ∧ ∃ decode, s.decode? tag = some decode ∧ decode ⟨tag, form, content, front⟩ = .ok value := by
  have hnumber : tag.number < wordLimit := by
    by_contra hnumber
    obtain ⟨length, -, rfl⟩ := h
    have hid := (isIdentifier_encodeIdentifier ⟨tag, form⟩).read (length ++ content ++ rest)
    rw [if_neg hnumber, ← List.append_assoc] at hid
    have hfault := fault?_read_of_identifier (s := s) hid
    rw [hread] at hfault
    cases hfault
  cases hs : s.decode? tag with
  | none =>
    obtain ⟨length, -, rfl⟩ := h
    have habsent := read_absent hs hnumber form (length ++ content ++ rest)
    rw [← List.append_assoc, hread] at habsent
    cases habsent
  | some decode =>
    have hfound := read_of_isElement hs hnumber h hlt rest
    rw [hread] at hfound
    cases hdecode : decode ⟨tag, form, content, front⟩ with
    | error fault =>
      rw [hdecode] at hfound
      cases hfound
    | ok result =>
      rw [hdecode] at hfound
      cases hfound
      exact ⟨rfl, decode, rfl, hdecode⟩

namespace Schema

variable {s : Schema α}

/-- Bytes are used up only where there is something to find at their start, and what is behind it is used up too. -/
private theorem step_of_collect {fuel : Nat} {values : List α} (h : s.collect fuel bytes = .ok (values, []))
    (hne : bytes ≠ []) :
    ∃ value after less more, s.read bytes = .found value after ∧ s.collect less after = .ok (more, []) := by
  cases fuel with
  | zero =>
    rw [collect, Except.ok.injEq, Prod.mk.injEq] at h
    exact absurd h.2 hne
  | succ fuel =>
    rw [collect] at h
    cases hfound : s.read bytes with
    | absent fault =>
      rw [hfound, Except.ok.injEq, Prod.mk.injEq] at h
      exact absurd h.2 hne
    | failed fault =>
      rw [hfound] at h
      cases h
    | found value after =>
      simp only [hfound] at h
      cases hmore : s.collect fuel after with
      | error fault =>
        simp only [hmore] at h
        cases h
      | ok result =>
        simp only [hmore, Except.ok.injEq, Prod.mk.injEq] at h
        exact ⟨value, after, fuel, result.1, rfl, h.2 ▸ hmore⟩

/-- If all is used up behind any elements, there is something to find. -/
private theorem found_of_collect {fuel : Nat} {values : List α} (hfront : front ∈ (⨆ tag, elementsOf tag)∗)
    (hlt : front.length < wordLimit) (h : s.collect fuel (front ++ rest) = .ok (values, [])) (hne : rest ≠ []) :
    ∃ value after, s.read rest = .found value after := by
  obtain ⟨elements, rfl, helements⟩ := Language.mem_kstar.mp hfront
  clear hfront
  induction elements generalizing fuel values with
  | nil =>
    obtain ⟨value, after, -, -, hfound, -⟩ := step_of_collect h hne
    exact ⟨value, after, hfound⟩
  | cons element elements ih =>
    rw [List.flatten_cons, List.append_assoc] at h
    rw [List.flatten_cons, List.length_append] at hlt
    obtain ⟨tag, form, content, helement⟩ := Language.mem_iSup.mp (helements element List.mem_cons_self)
    have hmore : element ++ (elements.flatten ++ rest) ≠ [] :=
      List.append_ne_nil_of_right_ne_nil _ (List.append_ne_nil_of_right_ne_nil _ hne)
    obtain ⟨value, after, less, more, hfound, hafter⟩ := step_of_collect h hmore
    obtain ⟨rfl, -⟩ := decode_of_found helement (by omega) hfound
    exact ih (fun other hother => helements other (List.mem_cons_of_mem _ hother)) (by omega) hafter

end Schema

/-- Whether the bytes are an element that the place does not take, by its tag or by what is in it. -/
def Schema.Refuses (s : Schema α) (element : List UInt8) : Prop :=
  ∃ tag form content, IsElement tag form content element ∧ (element.length < wordLimit →
    ∀ decode value, s.decode? tag = some decode → decode ⟨tag, form, content, element⟩ ≠ .ok value)

/-- A list is refused where one of its elements is, whichever are in front of it and whatever is behind it. -/
theorem TaggedType.sequenceOf_refuses {s : Schema α} {refused : Language UInt8}
    (hrefused : ∀ element ∈ refused, s.Refuses element)
    (h : bytes ∈ node .sequence ((⨆ tag, elementsOf tag)∗ * (refused * ⊤))) :
    ∃ fault, (sequenceOf s).whole bytes = .error fault := by
  obtain ⟨content, hcontent, helement⟩ := mem_node.mp h
  obtain ⟨front, hfront, back, hback, rfl⟩ := Language.mem_mul.mp hcontent
  obtain ⟨element, hmem, rest, -, rfl⟩ := Language.mem_mul.mp hback
  obtain ⟨tag, form, inner, hinner, hfails⟩ := hrefused element hmem
  cases hwhole : (sequenceOf s).whole bytes with
  | error fault => exact ⟨fault, rfl⟩
  | ok values =>
    obtain ⟨-, hlt⟩ := (whole_eq_ok_iff (show Tag.sequence.number < 31 by decide)).mp hwhole
    have hlength := helement.length_content_lt
    rw [List.length_append, List.length_append] at hlength
    have hne : element ++ rest ≠ [] :=
      List.append_ne_nil_of_left_ne_nil (List.length_pos_iff.mp (Nat.zero_lt_of_lt hinner.length_content_lt)) rest
    have hfound := Schema.whole_eq_ok_iff.mp hwhole
    rw [← List.append_nil bytes] at hfound
    obtain ⟨-, decode, hdecode, hmany⟩ := Schema.decode_of_found helement hlt hfound
    cases hdecode
    obtain ⟨value, after, hread⟩ :=
      Schema.found_of_collect hfront (by omega) (Fields.exhaust_eq_ok_iff.mp hmany) hne
    obtain ⟨-, decode, hdecode, hvalue⟩ := Schema.decode_of_found hinner (by omega) hread
    exact absurd hvalue (hfails (by omega) decode value hdecode)

end CertExtensions.Asn1
