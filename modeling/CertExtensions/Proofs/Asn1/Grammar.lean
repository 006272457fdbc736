import CertExtensions.Proofs.Asn1.Encodings
import CertExtensions.Proofs.Asn1.Extent

/-!
# Schemas and the languages that they read

A place that is read by a schema *finds* a language for each value if each encoding of a value is read as this value,
whatever is behind it (`Schema.Finds`). This goes from the parts of a type to the type, with one lemma for each way to
build types from types. In a sequence a required field is read in front of anything, and an optional one in front of
bytes that its schema passes over (`Schema.Passes`): no bytes at all, or an element with a tag that it does not take.
-/

namespace CertExtensions.Asn1

variable {α β : Type} {bytes front rest : List UInt8}

/-! ### Places -/

namespace Schema

/-- Whether the place finds each value in front of its encodings, whatever is behind them. -/
def Finds (s : Schema α) (encodings : α → Language UInt8) : Prop :=
  ∀ ⦃value front⦄, front ∈ encodings value → front.length < wordLimit → ∀ rest,
    s.read (front ++ rest) = .found value rest

/-- Whether an optional component of this kind is absent in front of the bytes. -/
def Passes (s : Schema α) (bytes : List UInt8) : Prop :=
  ∃ fault, s.read bytes = .absent fault

/-- Whether no tag is taken by both. -/
def Apart (s : Schema α) (t : Schema β) : Prop :=
  ∀ tag, (s.decode? tag).isSome → t.decode? tag = none

variable {s : Schema α} {t : Schema β} {encodings : α → Language UInt8} {value : α}

theorem passes_nil : s.Passes [] := ⟨.eof, read_nil⟩

/-- What one schema finds another one passes over if they have no tag in common. -/
private theorem passes_of_found (h : s.read bytes = .found value rest) (hapart : s.Apart t) : t.Passes bytes := by
  unfold read at h
  cases hid : readIdentifier bytes with
  | error fault =>
    by_cases hahead : (s.looksAhead || bytes.isEmpty) = true <;> simp [hid, hahead] at h
  | ok result =>
    cases hs : s.decode? result.1.tag with
    | none => simp [hid, hs] at h
    | some decode =>
      refine ⟨.invalid, ?_⟩
      unfold read
      simp only [hid, hapart result.1.tag (by simp [hs])]

/-! ### What is found -/

namespace Finds

theorem whole (h : s.Finds encodings) (hfront : front ∈ encodings value) (hlt : front.length < wordLimit) :
    s.whole front = .ok value := by
  rw [whole_eq_ok_iff]
  have hread := h hfront hlt []
  rwa [List.append_nil] at hread

theorem required (h : s.Finds encodings) (hfront : front ∈ encodings value) (hlt : front.length < wordLimit)
    (rest : List UInt8) : s.required (front ++ rest) = .ok (value, rest) := by
  unfold Schema.required
  rw [h hfront hlt]

theorem required_last (h : s.Finds encodings) (hfront : front ∈ encodings value) (hlt : front.length < wordLimit) :
    s.required front = .ok (value, []) := by
  have hread := h.required hfront hlt []
  rwa [List.append_nil] at hread

theorem passes (h : s.Finds encodings) (hapart : s.Apart t) (hfront : front ∈ encodings value)
    (hlt : front.length < wordLimit) (rest : List UInt8) : t.Passes (front ++ rest) :=
  passes_of_found (h hfront hlt rest) hapart

theorem passes_last (h : s.Finds encodings) (hapart : s.Apart t) (hfront : front ∈ encodings value)
    (hlt : front.length < wordLimit) : t.Passes front := by
  have hpasses := h.passes hapart hfront hlt []
  rwa [List.append_nil] at hpasses

variable {value? : Option α}

theorem passes_optionally (h : s.Finds encodings) (hapart : s.Apart t) (hfront : front ∈ optionally encodings value?)
    (hlt : front.length < wordLimit) (hrest : t.Passes rest) : t.Passes (front ++ rest) := by
  cases value? with
  | none =>
    obtain rfl := (Language.mem_one front).mp hfront
    exact hrest
  | some value => exact h.passes hapart hfront hlt rest

theorem passes_optionally_last (h : s.Finds encodings) (hapart : s.Apart t)
    (hfront : front ∈ optionally encodings value?) (hlt : front.length < wordLimit) : t.Passes front := by
  have hpasses := h.passes_optionally hapart hfront hlt passes_nil
  rwa [List.append_nil] at hpasses

theorem optional (h : s.Finds encodings) (hfront : front ∈ optionally encodings value?)
    (hlt : front.length < wordLimit) (hrest : s.Passes rest) : s.optional (front ++ rest) = .ok (value?, rest) := by
  unfold Schema.optional
  cases value? with
  | none =>
    obtain rfl := (Language.mem_one front).mp hfront
    obtain ⟨fault, habsent⟩ := hrest
    rw [List.nil_append, habsent]
  | some value => rw [h hfront hlt]

theorem optional_last (h : s.Finds encodings) (hfront : front ∈ optionally encodings value?)
    (hlt : front.length < wordLimit) : s.optional front = .ok (value?, []) := by
  have hread := h.optional hfront hlt passes_nil
  rwa [List.append_nil] at hread

theorem many (h : s.Finds encodings) {values : List α} (hbytes : bytes ∈ each encodings values)
    (hlt : bytes.length < wordLimit) : s.many bytes = .ok (values, []) := by
  obtain ⟨fronts, hall, rfl⟩ := mem_each.mp hbytes
  obtain ⟨hlength, hzip⟩ := List.forall₂_iff_zip.mp hall
  have hread : ∀ item ∈ values.zip fronts, ∀ rest,
      s.read (item.2 ++ rest) = .ofResult (Except.ok item.1 : Except Fault α) rest := by
    intro item hitem rest
    have hle := (List.sublist_flatten_of_mem (List.of_mem_zip hitem).2).length_le
    exact h (hzip hitem) (Nat.lt_of_le_of_lt hle hlt) rest
  have hmany := many_flatMap hread
  have hpure : ((values.zip fronts).mapM fun item => (Except.ok item.1 : Except Fault α)) =
      .ok ((values.zip fronts).map Prod.fst) := List.mapM_pure
  have hsnd : (values.zip fronts).map Prod.snd = fronts := List.map_snd_zip (Nat.le_of_eq hlength.symm)
  have hfst : (values.zip fronts).map Prod.fst = values := List.map_fst_zip (Nat.le_of_eq hlength)
  rw [List.flatMap_def, hpure, hfst, hsnd] at hmany
  exact hmany

end Finds

/-! ### Ascending elements -/

private theorem Finds.collectAscending (h : s.Finds encodings) {fronts : List (List UInt8)} {values : List α}
    (hall : List.Forall₂ (fun value front => front ∈ encodings value) values fronts)
    {previous : List UInt8} (hchain : (previous :: fronts).IsChain fun front next => ¬next < front)
    (hlt : fronts.flatten.length < wordLimit) {fuel : Nat} (hfuel : fronts.flatten.length ≤ fuel) :
    s.collectAscending fuel previous fronts.flatten = .ok (values, []) := by
  induction hall generalizing previous fuel with
  | nil =>
    cases fuel with
    | zero => rfl
    | succ fuel => simp only [List.flatten_nil, Schema.collectAscending, read_nil]
  | @cons value front values fronts hfront _ ih =>
    rw [List.flatten_cons, List.length_append] at hlt hfuel
    have hread := h hfront (by omega) fronts.flatten
    -- nothing is found in no bytes, so every element takes one
    have hpos : front ≠ [] := by
      rintro rfl
      have hnil := h hfront (by decide) []
      rw [List.append_nil, read_nil] at hnil
      cases hnil
    have hlength := List.length_pos_iff.mpr hpos
    obtain ⟨fuel, rfl⟩ : ∃ less, fuel = less + 1 := ⟨fuel - 1, by omega⟩
    obtain ⟨hfirst, hrest⟩ := List.isChain_cons_cons.mp hchain
    have htake : (front ++ fronts.flatten).take ((front ++ fronts.flatten).length - fronts.flatten.length) = front := by
      rw [List.length_append, Nat.add_sub_cancel, List.take_left]
    rw [List.flatten_cons, Schema.collectAscending, hread]
    simp only [htake, hfirst, ↓reduceIte, ih hrest (by omega) (show fronts.flatten.length ≤ fuel by omega)]

/-! ### Any element -/

/-- An element that does not mark the end of contents is found whatever is behind it, unless its tag number does not fit
a word. -/
theorem read_any {id : Identifier} {identifier length content : List UInt8} (hid : IsIdentifier id identifier)
    (hne : id.tag ≠ .universal 0) (hlength : IsLength content.length length)
    (hlt : (identifier ++ (length ++ content)).length < wordLimit) (rest : List UInt8) :
    any.read (identifier ++ (length ++ content) ++ rest) =
      if id.tag.number < wordLimit then .found (identifier ++ (length ++ content)) rest
      else .failed .integerOverflow := by
  have hread := hid.read (length ++ (content ++ rest))
  have hcomplete := Element.complete_of_isLength id hlength hlt rest
  have hbytes : identifier ++ (length ++ content) ++ rest = identifier ++ (length ++ (content ++ rest)) := by
    simp only [List.append_assoc]
  rw [hbytes] at hcomplete ⊢
  unfold Schema.read
  by_cases hnumber : id.tag.number < wordLimit
  · rw [if_pos hnumber] at hread
    simp only [hread, any, hne, ↓reduceIte, hcomplete, hnumber]
  · rw [if_neg hnumber] at hread
    have hempty : (identifier ++ (length ++ (content ++ rest))).isEmpty = false := by
      cases hid <;> rfl
    simp only [hread, hempty, hnumber, ↓reduceIte]
    rfl

theorem finds_any : any.Finds (verbatim someElement) := by
  intro value front hfront hlt rest
  obtain ⟨rfl, id, identifier, length, content, hid, hne, hnumber, hlength, rfl⟩ := mem_verbatim.mp hfront
  rw [read_any hid hne hlength hlt, if_pos hnumber]

end Schema

theorem remaining_eq : remaining = Schema.any.many >>= fun values => pure values.flatten := rfl

open Computability in
theorem remaining_of_mem (hbytes : bytes ∈ someElement∗) (hlt : bytes.length < wordLimit) :
    remaining bytes = .ok (bytes, []) := by
  obtain ⟨elements, rfl, helements⟩ := Language.mem_kstar.mp hbytes
  have heach : elements.flatten ∈ each (verbatim someElement) elements := by
    refine mem_each.mpr ⟨elements, List.forall₂_same.mpr fun element helement => ?_, rfl⟩
    exact ⟨rfl, helements element helement⟩
  have hmany := Schema.finds_any.many heach hlt
  rw [remaining_eq]
  exact Reader.bind_of_ok hmany

/-! ### Types with one tag -/

namespace TaggedType

open Schema

variable {tag : Tag} {decode : List UInt8 → Except Fault α} {contents : α → Language UInt8} {s : Schema α}
  {encodings : α → Language UInt8}

theorem apart {t : TaggedType α} {other : Schema β} (h : other.decode? t.tag = none) : t.schema.Apart other := by
  intro tag htag
  have heq : tag = t.tag := by
    by_contra hne
    rw [decode?_schema_of_ne hne] at htag
    cases htag
  rw [heq, h]

theorem read_ofContent {language : Language UInt8} {value : α} (hfront : front ∈ leaf tag language)
    (hnumber : tag.number < wordLimit) (hlt : front.length < wordLimit)
    (h : ∀ content ∈ language, content.length < wordLimit → decode content = .ok value) (rest : List UInt8) :
    (ofContent tag decode).schema.read (front ++ rest) = .found value rest := by
  obtain ⟨content, hcontent, helement⟩ := mem_leaf.mp hfront
  refine read_of_isEncoding hnumber (isEncoding_ofContent_iff.mpr ⟨content, helement, ?_⟩) hlt rest
  exact h content hcontent (Nat.lt_trans helement.length_content_lt hlt)

theorem read_ofComponents {language : Language UInt8} {value : α} (hfront : front ∈ node tag language)
    (hnumber : tag.number < wordLimit) (hlt : front.length < wordLimit)
    (h : ∀ content ∈ language, content.length < wordLimit → decode content = .ok value) (rest : List UInt8) :
    (ofComponents tag decode).schema.read (front ++ rest) = .found value rest := by
  obtain ⟨content, hcontent, helement⟩ := mem_node.mp hfront
  refine read_of_isEncoding hnumber (isEncoding_ofComponents_iff.mpr ⟨content, helement, ?_⟩) hlt rest
  exact h content hcontent (Nat.lt_trans helement.length_content_lt hlt)

theorem finds_ofContent (hnumber : tag.number < wordLimit)
    (h : ∀ value, ∀ content ∈ contents value, content.length < wordLimit → decode content = .ok value) :
    (ofContent tag decode).schema.Finds fun value => leaf tag (contents value) :=
  fun value _ hfront hlt => read_ofContent hfront hnumber hlt (h value)

private theorem finds_ofComponents (hnumber : tag.number < wordLimit)
    (h : ∀ value, ∀ content ∈ contents value, content.length < wordLimit → decode content = .ok value) :
    (ofComponents tag decode).schema.Finds fun value => node tag (contents value) :=
  fun value _ hfront hlt => read_ofComponents hfront hnumber hlt (h value)

/-- Fields that use up the content of a constructed element. -/
private theorem finds_fields {fields : Fields α} (hnumber : tag.number < wordLimit)
    (h : ∀ value, ∀ content ∈ contents value, content.length < wordLimit → fields content = .ok (value, [])) :
    (ofComponents tag fields.exhaust).schema.Finds fun value => node tag (contents value) :=
  finds_ofComponents hnumber fun value content hcontent hlt =>
    Fields.exhaust_eq_ok_iff.mpr (h value content hcontent hlt)

theorem finds_sequence {fields : Fields α}
    (h : ∀ value, ∀ content ∈ contents value, content.length < wordLimit → fields content = .ok (value, [])) :
    (sequence fields).schema.Finds fun value => node .sequence (contents value) :=
  finds_fields (show Tag.sequence.number < wordLimit by decide) h

theorem finds_sequenceOf (h : s.Finds encodings) :
    (sequenceOf s).schema.Finds fun values => node .sequence (each encodings values) :=
  finds_sequence fun _ _ hcontent hlt => h.many hcontent hlt

theorem finds_explicit (hnumber : tag.number < wordLimit) (h : s.Finds encodings) :
    (explicit tag s).schema.Finds fun value => node tag (encodings value) :=
  finds_ofComponents hnumber fun _ _ hcontent hlt => h.whole hcontent hlt

theorem finds_setOf (h : s.Finds encodings) :
    (setOf s).schema.Finds fun values => node .set (ascending encodings values) := by
  refine finds_fields (show Tag.set.number < wordLimit by decide) fun values content hcontent hlt => ?_
  obtain ⟨fronts, hall, hchain, rfl⟩ := hcontent
  refine h.collectAscending hall ?_ hlt (Nat.le_refl _)
  -- no element is less than no bytes
  cases fronts with
  | nil => exact .singleton []
  | cons front fronts => exact List.isChain_cons_cons.mpr ⟨List.not_lt_nil front, hchain⟩

theorem finds_undecoded (hnumber : tag.number < wordLimit) :
    (undecoded tag).schema.Finds (verbatim (elementsOf tag)) := by
  intro value front hfront hlt rest
  obtain ⟨rfl, form, content, helement⟩ := mem_verbatim.mp hfront
  exact read_of_isEncoding hnumber ⟨form, content, helement, rfl⟩ hlt rest

/-- The elements that the type reads as the value. -/
def elements (t : TaggedType α) (value : α) : Language UInt8 :=
  {bytes | t.IsEncoding value bytes}

theorem finds_elements {t : TaggedType α} (hnumber : t.tag.number < wordLimit) : t.schema.Finds t.elements :=
  fun _ _ hfront hlt rest => read_of_isEncoding hnumber hfront hlt rest

theorem mem_elements_sequence {fields : Fields α} {value : α} {language : Language UInt8}
    (hbytes : bytes ∈ node .sequence language) (hlt : bytes.length < wordLimit)
    (h : ∀ content ∈ language, content.length < wordLimit → fields content = .ok (value, [])) :
    bytes ∈ (sequence fields).elements value := by
  obtain ⟨content, hcontent, helement⟩ := mem_node.mp hbytes
  have hshort := Nat.lt_trans helement.length_content_lt hlt
  exact isEncoding_ofComponents_iff.mpr ⟨content, helement, Fields.exhaust_eq_ok_iff.mpr (h content hcontent hshort)⟩

/-- What is made of a value does not matter for where it is found. -/
theorem read_map_eq_found_iff {t : TaggedType α} {f : α → β} {value : β} :
    (t.map f).schema.read bytes = .found value rest ↔
      ∃ found, t.schema.read bytes = .found found rest ∧ f found = value := by
  rw [schema_map]
  unfold Schema.read Schema.map
  cases readIdentifier bytes with
  | error fault => cases t.schema.looksAhead || bytes.isEmpty <;> simp
  | ok result =>
    dsimp only
    cases t.schema.decode? result.1.tag with
    | none => simp
    | some decode =>
      dsimp only [Option.map]
      cases Element.complete bytes result.1 result.2 with
      | error fault => simp
      | ok result =>
        dsimp only
        cases decode result.1 with
        | error fault => simp [Except.map]
        | ok found =>
          simp only [Except.map, Outcome.found.injEq]
          constructor
          · rintro ⟨rfl, rfl⟩
            exact ⟨found, ⟨rfl, rfl⟩, rfl⟩
          · rintro ⟨found, ⟨rfl, rfl⟩, rfl⟩
            exact ⟨rfl, rfl⟩

end TaggedType

/-! ### Choices -/

namespace Schema

variable {types : List (TaggedType α)} {value : α}

theorem apart_choice {other : Schema β} (h : ∀ t ∈ types, other.decode? t.tag = none) : (choice types).Apart other := by
  intro tag htag
  obtain ⟨decode, hdecode⟩ := Option.isSome_iff_exists.mp htag
  obtain ⟨t, hfind, -⟩ := Option.map_eq_some_iff.mp hdecode
  have heq : t.tag = tag := by simpa using List.find?_some hfind
  rw [← heq]
  exact h t (List.mem_of_find?_eq_some hfind)

theorem read_choice_of_found {t : TaggedType α} (ht : types.find? (·.tag = t.tag) = some t)
    (h : t.schema.read bytes = .found value rest) : (choice types).read bytes = .found value rest := by
  unfold read at h ⊢
  cases hid : readIdentifier bytes with
  | error fault =>
    by_cases hahead : (t.schema.looksAhead || bytes.isEmpty) = true <;> simp [hid, hahead] at h
  | ok result =>
    by_cases htag : result.1.tag = t.tag
    · have hchoice : (choice types).decode? result.1.tag = some t.decode := by
        rw [htag]
        simp only [choice, ht, Option.map_some]
      rw [hid] at h
      simp only [htag, TaggedType.decode?_schema_self] at h
      simp only [hchoice]
      exact h
    · simp [hid, TaggedType.decode?_schema_of_ne htag] at h

theorem found_of_read_choice (h : (choice types).read bytes = .found value rest) :
    ∃ t ∈ types, t.schema.read bytes = .found value rest := by
  unfold read at h
  cases hid : readIdentifier bytes with
  | error fault =>
    by_cases hahead : ((choice types).looksAhead || bytes.isEmpty) = true <;> simp [hid, hahead] at h
  | ok result =>
    cases hfind : types.find? (·.tag = result.1.tag) with
    | none => simp [hid, choice, hfind] at h
    | some t =>
      have htag : t.tag = result.1.tag := by simpa using List.find?_some hfind
      refine ⟨t, List.mem_of_find?_eq_some hfind, ?_⟩
      unfold read
      simp only [hid, ← htag, TaggedType.decode?_schema_self]
      simpa only [hid, choice, hfind, Option.map_some] using h

end Schema

end CertExtensions.Asn1
