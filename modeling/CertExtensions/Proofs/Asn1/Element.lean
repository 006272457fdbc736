import CertExtensions.Asn1.Schema
import CertExtensions.Proofs.Asn1.Header

/-!
# Reading elements

The length of an element may have zeros in front, so an element has many forms; `IsElement` holds of all of them, and of
the one that is written. An element of fewer than 2 to the 64 bytes is read at every place that takes its tag, whatever
follows it. Main statements:

* `Schema.read_of_isElement`: a place that takes the tag finds what its decoder makes of the element, and so of one that
  has been written (`Schema.read_make`);
* `Schema.read_absent`: at any other place the element is absent;
* `TaggedType.whole_make`, `TaggedType.required_make`, `TaggedType.optional_make`: the same for an element that is all
  there is, for a required component and for an optional one;
* `Schema.collect_flatMap`: a run of elements is decoded one by one.
-/

namespace CertExtensions.Asn1

/-! ### One element -/

theorem Element.encoding_make (tag : Tag) (constructed : Bool) (content : List UInt8) :
    (make tag constructed content).encoding =
      encodeIdentifier ⟨tag, constructed⟩ ++ (encodeLength content.length ++ content) :=
  List.append_assoc _ _ _

theorem Element.length_content_lt (tag : Tag) (constructed : Bool) (content : List UInt8) :
    content.length < (make tag constructed content).encoding.length := by
  have := List.length_pos_iff.mpr (encodeIdentifier_ne_nil ⟨tag, constructed⟩)
  rw [encoding_make, List.length_append, List.length_append]
  omega

/-- An element with a short tag and a length below 2 to the 64 has at most ten bytes in front of its content. -/
theorem Element.length_make_le {tag : Tag} {content : List UInt8} (hnumber : tag.number < 31)
    (hlt : content.length < wordLimit) (constructed : Bool) :
    (make tag constructed content).encoding.length ≤ content.length + 10 := by
  have hidentifier : (encodeIdentifier ⟨tag, constructed⟩).length = 1 := by
    rw [encodeIdentifier, if_pos hnumber]
    rfl
  have hlength : (encodeLength content.length).length ≤ 9 := by
    unfold encodeLength
    split
    · simp
    · rw [List.length_cons]
      exact Nat.succ_le_succ (length_shortest_le hlt)
  rw [encoding_make, List.length_append, List.length_append]
  omega

/-- A tag number that the readers take, on an element whose bytes they can count. -/
structure Element.Fits (tag : Tag) (constructed : Bool) (content : List UInt8) : Prop where
  number : tag.number < wordLimit
  length : (make tag constructed content).encoding.length < wordLimit

/-- Whether the bytes are an element of the tag and the form, with the content behind one of the forms of its length. -/
def IsElement (tag : Tag) (form : Bool) (content bytes : List UInt8) : Prop :=
  ∃ length, IsLength content.length length ∧ bytes = encodeIdentifier ⟨tag, form⟩ ++ (length ++ content)

variable {tag : Tag} {form : Bool} {content bytes : List UInt8}

theorem isElement_make (h : content.length < wordLimit) (tag : Tag) (form : Bool) :
    IsElement tag form content (Element.make tag form content).encoding :=
  ⟨_, isLength_encodeLength h, Element.encoding_make tag form content⟩

private theorem Element.Fits.isElement (h : Fits tag form content) :
    IsElement tag form content (make tag form content).encoding :=
  isElement_make (Nat.lt_trans (length_content_lt tag form content) h.length) tag form

theorem Element.complete_of_isLength {front length : List UInt8} (id : Identifier)
    (h : IsLength content.length length) (hlt : (front ++ (length ++ content)).length < wordLimit)
    (rest : List UInt8) :
    complete (front ++ (length ++ content) ++ rest) id (length ++ (content ++ rest)) =
      .ok (⟨id.tag, id.constructed, content, front ++ (length ++ content)⟩, rest) := by
  have hcontent : content.length < wordLimit := by
    rw [List.length_append, List.length_append] at hlt
    omega
  have hcheck : checkLength (front ++ (length ++ content) ++ rest) (content ++ rest)
      ⟨content.length, decide (128 ≤ content.length)⟩ = .ok content.length := by
    -- the long form is that of a long content, and the element ends where the reader can go and has bytes
    have hform : ¬(decide (128 ≤ content.length) && decide (content.length < 128)) = true := by
      rw [Bool.and_eq_true, decide_eq_true_eq, decide_eq_true_eq]
      omega
    have hend : ¬(content ++ rest).length < content.length := by
      rw [List.length_append]
      omega
    rw [checkLength, if_neg hform, if_neg, if_neg hend]
    simp only [List.length_append] at hlt ⊢
    omega
  unfold complete
  simp only [readLength_of_isLength h hcontent, hcheck, List.drop_left, List.take_left]
  rw [List.length_append, Nat.add_sub_cancel, List.take_left]

private theorem Element.encoding_of_complete {bytes rest after : List UInt8} {id : Identifier} {element : Element}
    (h : complete bytes id rest = .ok (element, after)) :
    element.encoding = bytes.take (bytes.length - after.length) := by
  unfold complete at h
  cases hlength : readLength rest with
  | error fault =>
    rw [hlength] at h
    cases h
  | ok result =>
    obtain ⟨length, content⟩ := result
    cases hcheck : checkLength bytes content length with
    | error fault =>
      simp only [hlength, hcheck] at h
      cases h
    | ok n =>
      simp only [hlength, hcheck] at h
      cases h
      rfl

/-! ### Places -/

/-- What reading gives where an element is there and has been decoded. -/
def Outcome.ofResult {α : Type} (result : Except Fault α) (rest : List UInt8) : Outcome α :=
  match result with
  | .ok value => .found value rest
  | .error fault => .failed fault

namespace Schema

variable {α : Type} {s : Schema α}

/-- An element is found at a place that takes its tag, whatever form its length has. -/
theorem read_of_isElement {decode : Element → Except Fault α} (hs : s.decode? tag = some decode)
    (hnumber : tag.number < wordLimit) (h : IsElement tag form content bytes) (hlt : bytes.length < wordLimit)
    (rest : List UInt8) :
    s.read (bytes ++ rest) = .ofResult (decode ⟨tag, form, content, bytes⟩) rest := by
  obtain ⟨length, hlength, rfl⟩ := h
  have hid := readIdentifier_encodeIdentifier ⟨tag, form⟩ hnumber (length ++ (content ++ rest))
  have hcomplete := Element.complete_of_isLength ⟨tag, form⟩ hlength hlt rest
  have hbytes : encodeIdentifier ⟨tag, form⟩ ++ (length ++ content) ++ rest =
      encodeIdentifier ⟨tag, form⟩ ++ (length ++ (content ++ rest)) := by simp only [List.append_assoc]
  rw [hbytes] at hcomplete ⊢
  unfold read
  simp only [hid, hs, hcomplete]
  cases decode ⟨tag, form, content, encodeIdentifier ⟨tag, form⟩ ++ (length ++ content)⟩ <;> rfl

/-- Where the tag is not taken, what follows it does not matter. -/
theorem read_absent (hs : s.decode? tag = none) (h : tag.number < wordLimit) (form : Bool) (rest : List UInt8) :
    s.read (encodeIdentifier ⟨tag, form⟩ ++ rest) = .absent .invalid := by
  unfold read
  simp only [readIdentifier_encodeIdentifier ⟨tag, form⟩ h, hs]

theorem read_make {decode : Element → Except Fault α} (hs : s.decode? tag = some decode)
    (h : Element.Fits tag form content) (rest : List UInt8) :
    s.read ((Element.make tag form content).encoding ++ rest) =
      .ofResult (decode (Element.make tag form content)) rest :=
  read_of_isElement hs h.number h.isElement h.length rest

/-- Where something is found there is a complete element, and the content reader of its tag has taken it. -/
theorem complete_of_found {rest : List UInt8} {value : α} (h : s.read bytes = .found value rest) :
    ∃ id behind element decode, readIdentifier bytes = .ok (id, behind) ∧ s.decode? id.tag = some decode ∧
      Element.complete bytes id behind = .ok (element, rest) ∧ decode element = .ok value := by
  unfold read at h
  cases hid : readIdentifier bytes with
  | error fault =>
    by_cases hahead : (s.looksAhead || bytes.isEmpty) = true <;> simp [hid, hahead] at h
  | ok result =>
    obtain ⟨id, behind⟩ := result
    simp only [hid] at h
    cases hs : s.decode? id.tag with
    | none => simp [hs] at h
    | some decode =>
      simp only [hs] at h
      cases hcomplete : Element.complete bytes id behind with
      | error fault => simp [hcomplete] at h
      | ok result =>
        obtain ⟨element, after⟩ := result
        simp only [hcomplete] at h
        cases hdecode : decode element with
        | error fault => simp [hdecode] at h
        | ok found =>
          simp only [hdecode] at h
          cases h
          exact ⟨id, behind, element, decode, rfl, hs, hcomplete, hdecode⟩

theorem read_nil : s.read [] = .absent .eof := by
  simp [read, readIdentifier]

private theorem optional_nil : s.optional [] = .ok (none, []) := by
  simp only [optional, read_nil]

theorem whole_make {decode : Element → Except Fault α} (hs : s.decode? tag = some decode)
    (h : Element.Fits tag form content) :
    s.whole (Element.make tag form content).encoding = decode (Element.make tag form content) := by
  have hread := read_make hs h []
  rw [List.append_nil] at hread
  unfold whole
  rw [hread]
  cases decode (Element.make tag form content) <;> rfl

/-- What is made of a value does not matter for whether there is one. -/
theorem whole_map {β : Type} (f : α → β) (s : Schema α) (bytes : List UInt8) :
    (s.map f).whole bytes = (s.whole bytes).map f := by
  unfold whole read map
  cases readIdentifier bytes with
  | error fault => cases s.looksAhead || bytes.isEmpty <;> rfl
  | ok result =>
    obtain ⟨id, rest⟩ := result
    dsimp only
    cases s.decode? id.tag with
    | none => rfl
    | some decode =>
      dsimp only [Option.map]
      cases Element.complete bytes id rest with
      | error fault => rfl
      | ok result =>
        obtain ⟨element, after⟩ := result
        dsimp only
        cases decode element with
        | error fault => rfl
        | ok value => cases after <;> rfl

/-- Elements one after the other are decoded one by one, up to the first that is malformed. -/
theorem collect_flatMap {β : Type} {encode : β → List UInt8} {decode : β → Except Fault α} {items : List β}
    (hread : ∀ item ∈ items, ∀ rest, s.read (encode item ++ rest) = .ofResult (decode item) rest) {fuel : Nat}
    (hfuel : items.length ≤ fuel) :
    s.collect fuel (items.flatMap encode) = (items.mapM decode).map fun values => (values, []) := by
  induction items generalizing fuel with
  | nil =>
    cases fuel with
    | zero => rfl
    | succ fuel => simp only [List.flatMap_nil, collect, read_nil, List.mapM_nil]; rfl
  | cons item items ih =>
    cases fuel with
    | zero =>
      rw [List.length_cons] at hfuel
      omega
    | succ fuel =>
      have hrest := ih (fun other hother => hread other (List.mem_cons_of_mem _ hother))
        (Nat.le_of_succ_le_succ hfuel)
      rw [List.flatMap_cons, collect, hread item List.mem_cons_self, List.mapM_cons]
      cases hd : decode item with
      | error fault => rfl
      | ok value =>
        simp only [Outcome.ofResult, hrest]
        cases items.mapM decode <;> rfl

/-- Elements one after the other up to the end are all that follow. -/
theorem many_flatMap {β : Type} {encode : β → List UInt8} {decode : β → Except Fault α} {items : List β}
    (hread : ∀ item ∈ items, ∀ rest, s.read (encode item ++ rest) = .ofResult (decode item) rest) :
    s.many (items.flatMap encode) = (items.mapM decode).map fun values => (values, []) := by
  refine collect_flatMap hread ?_
  -- every item takes a byte, because nothing is found in no bytes; so the fuel lasts
  have hlength : ∀ item ∈ items, 1 ≤ (encode item).length := by
    intro item hitem
    rw [Nat.one_le_iff_ne_zero, Ne, List.length_eq_zero_iff]
    intro hnil
    have habsent := hread item hitem []
    rw [hnil, List.append_nil, read_nil] at habsent
    cases hdecode : decode item <;> rw [hdecode] at habsent <;> cases habsent
  clear hread
  induction items with
  | nil => simp
  | cons item items ih =>
    have hitem := hlength item List.mem_cons_self
    have hitems := ih fun other hother => hlength other (List.mem_cons_of_mem _ hother)
    rw [List.flatMap_cons, List.length_append, List.length_cons]
    omega

theorem whole_eq_ok_iff {value : α} : s.whole bytes = .ok value ↔ s.read bytes = .found value [] := by
  unfold whole
  cases s.read bytes with
  | absent fault => simp
  | failed fault => simp
  | found found rest =>
    cases rest with
    | nil => simp
    | cons b rest => simp

theorem required_eq_ok_iff {rest : List UInt8} {value : α} :
    s.required bytes = .ok (value, rest) ↔ s.read bytes = .found value rest := by
  unfold required
  cases s.read bytes with
  | absent fault => simp
  | failed fault => simp
  | found found after => simp

/-- An optional component is found, or has taken nothing. -/
theorem optional_cases {rest : List UInt8} {value? : Option α} (h : s.optional bytes = .ok (value?, rest)) :
    (value? = none ∧ rest = bytes) ∨ ∃ value, value? = some value ∧ s.read bytes = .found value rest := by
  unfold optional at h
  cases hread : s.read bytes with
  | absent fault =>
    rw [hread] at h
    cases h
    exact .inl ⟨rfl, rfl⟩
  | failed fault =>
    rw [hread] at h
    cases h
  | found value after =>
    rw [hread] at h
    cases h
    exact .inr ⟨value, rfl, rfl⟩

/-- What is one element of a kind is one element of any kind. -/
theorem any_whole {bytes : List UInt8} {value : α} (h : s.whole bytes = .ok value)
    (hs : s.decode? (.universal 0) = none) : any.whole bytes = .ok bytes := by
  obtain ⟨id, behind, element, decode, hid, hdecode, hcomplete, -⟩ := complete_of_found (whole_eq_ok_iff.mp h)
  -- only the mark for the end of contents is no element of any kind
  have hne : id.tag ≠ .universal 0 := by
    intro heq
    rw [heq, hs] at hdecode
    cases hdecode
  have hencoding := Element.encoding_of_complete hcomplete
  rw [List.length_nil, Nat.sub_zero, List.take_length] at hencoding
  rw [whole_eq_ok_iff]
  unfold read
  simp only [hid, any, hne, ↓reduceIte, hcomplete, hencoding]

end Schema

/-! ### Types with one tag -/

namespace TaggedType

variable {α : Type} {t : TaggedType α}

theorem decode?_schema_self : t.schema.decode? t.tag = some t.decode :=
  if_pos rfl

theorem decode?_schema_of_ne (h : tag ≠ t.tag) : t.schema.decode? tag = none :=
  if_neg h

theorem read_make (h : Element.Fits t.tag form content) (rest : List UInt8) :
    t.schema.read ((Element.make t.tag form content).encoding ++ rest) =
      .ofResult (t.decode (Element.make t.tag form content)) rest :=
  Schema.read_make decode?_schema_self h rest

theorem whole_make (h : Element.Fits t.tag form content) :
    t.whole (Element.make t.tag form content).encoding = t.decode (Element.make t.tag form content) :=
  Schema.whole_make decode?_schema_self h

theorem schema_map {β : Type} (f : α → β) (t : TaggedType α) : (t.map f).schema = t.schema.map f := by
  unfold schema map Schema.map
  congr 1
  funext tag
  by_cases h : tag = t.tag
  · simp [h]
  · simp [h]

theorem whole_map {β : Type} (f : α → β) (t : TaggedType α) (bytes : List UInt8) :
    (t.map f).whole bytes = (t.whole bytes).map f := by
  unfold whole
  rw [schema_map, Schema.whole_map]

theorem required_make (h : Element.Fits t.tag form content) (rest : List UInt8) :
    t.required ((Element.make t.tag form content).encoding ++ rest) =
      (t.decode (Element.make t.tag form content)).map (·, rest) := by
  simp only [required, Schema.required, read_make h]
  cases t.decode (Element.make t.tag form content) <;> rfl

theorem optional_make (h : Element.Fits t.tag form content) (rest : List UInt8) :
    t.optional ((Element.make t.tag form content).encoding ++ rest) =
      (t.decode (Element.make t.tag form content)).map fun value => (some value, rest) := by
  simp only [optional, Schema.optional, read_make h]
  cases t.decode (Element.make t.tag form content) <;> rfl

/-- An optional component of another type is not there, whatever follows the tag. -/
theorem optional_absent (hne : tag ≠ t.tag) (h : tag.number < wordLimit) (form : Bool) (rest : List UInt8) :
    t.optional (encodeIdentifier ⟨tag, form⟩ ++ rest) = .ok (none, encodeIdentifier ⟨tag, form⟩ ++ rest) := by
  simp only [optional, Schema.optional, Schema.read_absent (decode?_schema_of_ne hne) h]

theorem optional_make_absent (hne : tag ≠ t.tag) (h : tag.number < wordLimit) (rest : List UInt8) :
    t.optional ((Element.make tag form content).encoding ++ rest) =
      .ok (none, (Element.make tag form content).encoding ++ rest) := by
  rw [Element.encoding_make, List.append_assoc]
  exact optional_absent hne h form _

theorem optional_nil : t.optional [] = .ok (none, []) :=
  Schema.optional_nil

@[simp] theorem decode_ofContent (tag' : Tag) (read : List UInt8 → Except Fault α) :
    (ofContent tag' read).decode (Element.make tag false content) = read content := rfl

/-- A sequence of components that use up its content. -/
theorem whole_sequence {fields : Fields α} {value : α} (h : (constructed .sequence content).length < wordLimit)
    (hfields : fields content = .ok (value, [])) :
    (sequence fields).whole (constructed .sequence content) = .ok value := by
  have hfits : Element.Fits (sequence fields).tag true content := ⟨show Tag.sequence.number < wordLimit by decide, h⟩
  have hwhole := whole_make hfits
  have hdecode : (sequence fields).decode (Element.make .sequence true content) = fields.exhaust content := rfl
  unfold Fields.exhaust StateT.run at hdecode
  rw [hfields] at hdecode
  exact hwhole.trans hdecode

/-- An optional component that is written only where it is present. -/
theorem optional_written {present : Bool} {value : α} (h : present → Element.Fits t.tag form content)
    (hvalue : present → t.decode (Element.make t.tag form content) = .ok value) {rest : List UInt8}
    (hrest : t.optional rest = .ok (none, rest)) :
    t.optional ((if present then (Element.make t.tag form content).encoding else []) ++ rest) =
      .ok (if present then some value else none, rest) := by
  cases present with
  | false => exact hrest
  | true =>
    rw [if_pos rfl, if_pos rfl, optional_make (h rfl), hvalue rfl]
    rfl

/-- A component of another type does not count, whether or not it is written. -/
theorem optional_absent_written {present : Bool} (hne : tag ≠ t.tag) (h : tag.number < wordLimit)
    {rest : List UInt8} (hrest : t.optional rest = .ok (none, rest)) :
    t.optional ((if present then (Element.make tag form content).encoding else []) ++ rest) =
      .ok (none, (if present then (Element.make tag form content).encoding else []) ++ rest) := by
  cases present with
  | false => exact hrest
  | true => exact optional_make_absent hne h rest

theorem decode_sequenceOf {β : Type} {s : Schema α} {encode : β → List UInt8} {decode : β → Except Fault α}
    {items : List β}
    (hread : ∀ item ∈ items, ∀ rest, s.read (encode item ++ rest) = .ofResult (decode item) rest) :
    (sequenceOf s).decode (Element.make tag true (items.flatMap encode)) = items.mapM decode := by
  change Fields.exhaust s.many (items.flatMap encode) = _
  unfold Fields.exhaust StateT.run
  rw [Schema.many_flatMap hread]
  cases items.mapM decode <;> rfl

@[simp] theorem decode_ofComponents (tag' : Tag) (read : List UInt8 → Except Fault α) :
    (ofComponents tag' read).decode (Element.make tag true content) = read content := rfl

end TaggedType

end CertExtensions.Asn1
