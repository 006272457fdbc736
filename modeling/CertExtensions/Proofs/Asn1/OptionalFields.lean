import CertExtensions.Asn1.Primitive
import CertExtensions.Proofs.Asn1.ElementList

/-!
# Records of optional fields

The fields of a record may all be optional and told apart by context tags. Each is read where its tag comes next, and
is taken for missing where another one comes; a field out of order, or that is there a second time, is so left over
behind the last one, where nothing may be.

`Fields.Takes` says this of a reader of such fields. It holds of a reader that is at its end, and of one for a field and
those behind it if it holds of the one for those behind it (`Fields.Takes.optional`), so it is proved of a record field
by field. `TaggedType.HasFields.whole` is what follows for the sequence of the fields.
-/

namespace CertExtensions.Asn1

/-- A field of a record that may be missing in an encoding: the type of its elements, what a record has for the field,
and what it has to have for a value that is there or is missing. -/
structure OptionalField (ρ : Type) where
  {β γ : Type}
  number : Nat
  type : TaggedType β
  get : ρ → γ
  entry : Option β → γ
  tag_eq : type.tag = .context number
  number_lt : number < 31

variable {ρ : Type} {field : OptionalField ρ} {fields : List (OptionalField ρ)} {item : Nat × List UInt8}
  {items : List (Nat × List UInt8)}

namespace OptionalField

/-- Whether the item is an element of the field, under its number. -/
def Reads (field : OptionalField ρ) (item : Nat × List UInt8) : Prop :=
  field.number = item.1 ∧ ∃ value, field.type.whole item.2 = .ok value

/-- The value of the field among the items: what is read of the first one with its number. -/
def value? (field : OptionalField ρ) (items : List (Nat × List UInt8)) : Option field.β :=
  (items.find? (·.1 = field.number)).bind fun item => (field.type.whole item.2).toOption

private theorem value?_cons_of_ne (h : item.1 ≠ field.number) : field.value? (item :: items) = field.value? items := by
  unfold value?
  rw [List.find?_cons_of_neg (by simpa using h)]

private theorem value?_cons_self (h : item.1 = field.number) {value : field.β}
    (hvalue : field.type.whole item.2 = .ok value) :
    field.value? (item :: items) = some value := by
  unfold value?
  rw [List.find?_cons_of_pos (by simpa using h), Option.bind_some, hvalue]
  rfl

private theorem value?_eq_none (h : ∀ item ∈ items, item.1 ≠ field.number) : field.value? items = none := by
  unfold value?
  rw [List.find?_eq_none.mpr (by simpa using h), Option.bind_none]

/-- A field that a record has just as it is. -/
def plain {β : Type} (number : Nat) (type : TaggedType β) (get : ρ → Option β) (h : number < 31 := by decide) :
    OptionalField ρ where
  number
  type := type.implicit (.context number)
  get
  entry := id
  tag_eq := rfl
  number_lt := h

/-- A truth value that is false if it is missing. -/
def flag (number : Nat) (get : ρ → Bool) (h : number < 31 := by decide) : OptionalField ρ where
  number
  type := boolean.implicit (.context number)
  get
  entry := (·.getD false)
  tag_eq := rfl
  number_lt := h

private theorem isEncoding_of_whole {value : field.β} (h : field.type.whole item.2 = .ok value) :
    field.type.IsEncoding value item.2 ∧ item.2.length < wordLimit :=
  (TaggedType.whole_eq_ok_iff (by rw [field.tag_eq]; exact field.number_lt)).mp h

end OptionalField

/-! ### Items and their order -/

/-- An element under the tag of the item's number, which the field of this number reads if it is one of the fields. -/
def IsItem (fields : List (OptionalField ρ)) (item : Nat × List UInt8) : Prop :=
  item.1 < 31 ∧ (∃ form content, IsElement (.context item.1) form content item.2) ∧
    ∀ field ∈ fields, field.number = item.1 → ∃ value, field.type.whole item.2 = .ok value

private theorem IsItem.tail (h : IsItem (field :: fields) item) : IsItem fields item :=
  ⟨h.1, h.2.1, fun other hother => h.2.2 other (List.mem_cons_of_mem _ hother)⟩

private theorem IsItem.optional_of_self (h : IsItem (field :: fields) item) (hself : item.1 = field.number) :
    ∃ value, field.type.whole item.2 = .ok value ∧
      ∀ rest, field.type.optional (item.2 ++ rest) = .ok (some value, rest) := by
  obtain ⟨value, hvalue⟩ := h.2.2 field List.mem_cons_self hself.symm
  obtain ⟨hencoding, hshort⟩ := field.isEncoding_of_whole hvalue
  have htag : field.type.tag.number < wordLimit := by
    rw [field.tag_eq]
    exact Nat.lt_trans field.number_lt (by decide)
  exact ⟨value, hvalue, TaggedType.optional_of_isEncoding htag hencoding hshort⟩

private theorem IsItem.optional_of_other (h : IsItem (field :: fields) item) (hother : item.1 ≠ field.number)
    (rest : List UInt8) : field.type.optional (item.2 ++ rest) = .ok (none, item.2 ++ rest) := by
  obtain ⟨hnumber, ⟨form, content, helement⟩, -⟩ := h
  have hne : Tag.context item.1 ≠ field.type.tag := by
    rw [field.tag_eq]
    exact fun heq => hother (congrArg Tag.number heq)
  exact TaggedType.optional_of_isElement hne (Nat.lt_trans hnumber (by decide)) helement rest

private theorem isItem_of_reads (hfields : (fields.map (·.number)).Pairwise (· < ·)) (hfield : field ∈ fields)
    (h : field.Reads item) : IsItem fields item := by
  obtain ⟨hnumber, value, hvalue⟩ := h
  obtain ⟨⟨form, content, helement, -⟩, -⟩ := field.isEncoding_of_whole hvalue
  rw [field.tag_eq, hnumber] at helement
  refine ⟨hnumber ▸ field.number_lt, ⟨form, content, helement⟩, fun other hother hsame => ?_⟩
  obtain rfl := List.inj_on_of_nodup_map (hfields.imp Nat.ne_of_lt) hfield hother (hnumber.trans hsame.symm)
  exact ⟨value, hvalue⟩

/-- Items of the fields, each at most once and in the order of their numbers. -/
def InOrder (fields : List (OptionalField ρ)) (items : List (Nat × List UInt8)) : Prop :=
  (items.map Prod.fst).Pairwise (· < ·) ∧ ∀ item ∈ items, ∃ field ∈ fields, field.number = item.1

private theorem inOrder_nil : InOrder fields [] := ⟨.nil, nofun⟩

private theorem inOrder_cons_self (hlater : ∀ other ∈ fields, field.number < other.number) (h : item.1 = field.number) :
    InOrder (field :: fields) (item :: items) ↔ InOrder fields items := by
  unfold InOrder
  rw [List.map_cons, List.pairwise_cons]
  constructor
  · rintro ⟨⟨hless, hpairwise⟩, hmem⟩
    refine ⟨hpairwise, fun other hother => ?_⟩
    obtain ⟨found, hfound, heq⟩ := hmem other (List.mem_cons_of_mem _ hother)
    have hlt := hless other.1 (List.mem_map_of_mem hother)
    rcases List.mem_cons.mp hfound with rfl | hfound
    · omega
    · exact ⟨found, hfound, heq⟩
  · rintro ⟨hpairwise, hmem⟩
    refine ⟨⟨?_, hpairwise⟩, ?_⟩
    · intro number hnumber
      obtain ⟨other, hother, rfl⟩ := List.mem_map.mp hnumber
      obtain ⟨found, hfound, heq⟩ := hmem other hother
      have hlt := hlater found hfound
      omega
    · rw [List.forall_mem_cons]
      refine ⟨⟨field, List.mem_cons_self, h.symm⟩, fun other hother => ?_⟩
      obtain ⟨found, hfound, heq⟩ := hmem other hother
      exact ⟨found, List.mem_cons_of_mem _ hfound, heq⟩

private theorem inOrder_cons_of_ne (hlater : ∀ other ∈ fields, field.number < other.number)
    (h : item.1 ≠ field.number) :
    InOrder (field :: fields) (item :: items) ↔ InOrder fields (item :: items) := by
  constructor
  · rintro ⟨hpairwise, hmem⟩
    refine ⟨hpairwise, ?_⟩
    rw [List.map_cons, List.pairwise_cons] at hpairwise
    rw [List.forall_mem_cons] at hmem ⊢
    obtain ⟨⟨first, hfirst, heq⟩, hmem⟩ := hmem
    have hfirst := (List.mem_cons.mp hfirst).resolve_left fun hself => h (hself ▸ heq.symm)
    refine ⟨⟨first, hfirst, heq⟩, fun other hother => ?_⟩
    obtain ⟨found, hfound, hnumber⟩ := hmem other hother
    have hless := hpairwise.1 other.1 (List.mem_map_of_mem hother)
    have hlt := hlater first hfirst
    rcases List.mem_cons.mp hfound with rfl | hfound
    · omega
    · exact ⟨found, hfound, hnumber⟩
  · rintro ⟨hpairwise, hmem⟩
    refine ⟨hpairwise, fun other hother => ?_⟩
    obtain ⟨found, hfound, hnumber⟩ := hmem other hother
    exact ⟨found, List.mem_cons_of_mem _ hfound, hnumber⟩

private theorem InOrder.ne_of_later (h : InOrder fields items)
    (hlater : ∀ other ∈ fields, field.number < other.number) :
    ∀ item ∈ items, item.1 ≠ field.number := by
  intro item hitem
  obtain ⟨found, hfound, heq⟩ := h.2 item hitem
  have hlt := hlater found hfound
  omega

/-! ### Reading -/

/-- From the items in their order the reader makes a record that has, for each of the fields, what the items say of it,
and of which something more is known. From all others it makes a record too, but leaves something over. -/
def Fields.Takes (reader : Fields ρ) (fields : List (OptionalField ρ)) (also : ρ → Prop) : Prop :=
  ∀ items, (∀ item ∈ items, IsItem fields item) → (items.flatMap Prod.snd).length < wordLimit →
    (InOrder fields items → ∃ record, reader (items.flatMap Prod.snd) = .ok (record, []) ∧ also record ∧
      ∀ field ∈ fields, field.get record = field.entry (field.value? items)) ∧
    (¬InOrder fields items → ∃ record rest, reader (items.flatMap Prod.snd) = .ok (record, rest) ∧ rest ≠ [])

namespace Fields

variable {also : ρ → Prop}

/-- At the end nothing is read. -/
theorem Takes.pure {record : ρ} (h : also record) : Takes (pure record) [] also := by
  intro items hitems hlt
  refine ⟨fun hin => ?_, fun hnot => ⟨record, items.flatMap Prod.snd, rfl, ?_⟩⟩
  · cases items with
    | nil => exact ⟨record, rfl, h, nofun⟩
    | cons item items =>
      obtain ⟨field, hfield, -⟩ := hin.2 item List.mem_cons_self
      cases hfield
  · cases items with
    | nil => exact absurd inOrder_nil hnot
    | cons item items =>
      obtain ⟨-, ⟨form, content, helement⟩, -⟩ := hitems item List.mem_cons_self
      exact List.append_ne_nil_of_left_ne_nil (ne_nil_of_mem_anyElement (mem_anyElement helement)) _

/-- A field is read in front of others with higher numbers, which are taken behind each value of it. -/
theorem Takes.optional {next : Option field.β → Fields ρ} (hlater : ∀ other ∈ fields, field.number < other.number)
    (h : ∀ value?, (next value?).Takes fields fun record => also record ∧ field.get record = field.entry value?) :
    Takes (field.type.optional >>= next) (field :: fields) also := by
  intro items hitems hlt
  cases items with
  | nil =>
    have hread : (field.type.optional >>= next) [] = next none [] := Reader.bind_of_ok rfl
    obtain ⟨hin, -⟩ := h none [] nofun hlt
    obtain ⟨record, hrecord, ⟨halso, hself⟩, hothers⟩ := hin inOrder_nil
    refine ⟨fun _ => ⟨record, hread.trans hrecord, halso, ?_⟩, fun hnot => absurd inOrder_nil hnot⟩
    exact List.forall_mem_cons.mpr ⟨hself, hothers⟩
  | cons item items =>
    have hitem := hitems item List.mem_cons_self
    have htails : ∀ other ∈ item :: items, IsItem fields other := fun other hother => (hitems other hother).tail
    by_cases hself : item.1 = field.number
    · -- the field is there, and the others are to follow
      obtain ⟨value, hvalue, hread⟩ := hitem.optional_of_self hself
      have hfirst : (field.type.optional >>= next) (item.2 ++ items.flatMap Prod.snd) =
          next (some value) (items.flatMap Prod.snd) := Reader.bind_of_ok (hread _)
      rw [List.flatMap_cons, List.length_append] at hlt
      obtain ⟨hin, hout⟩ := h (some value) items (fun other hother => htails other (List.mem_cons_of_mem _ hother))
        (by omega)
      rw [inOrder_cons_self hlater hself, List.flatMap_cons, hfirst]
      refine ⟨fun horder => ?_, hout⟩
      obtain ⟨record, hrecord, ⟨halso, hget⟩, hothers⟩ := hin horder
      refine ⟨record, hrecord, halso, List.forall_mem_cons.mpr ⟨?_, fun other hother => ?_⟩⟩
      · rw [hget, OptionalField.value?_cons_self hself hvalue]
      · have hnumber := hlater other hother
        rw [hothers other hother, OptionalField.value?_cons_of_ne (by omega)]
    · -- another field is there, so this one is missing
      have hfirst : (field.type.optional >>= next) ((item :: items).flatMap Prod.snd) =
          next none ((item :: items).flatMap Prod.snd) := by
        rw [List.flatMap_cons]
        exact Reader.bind_of_ok (hitem.optional_of_other hself _)
      obtain ⟨hin, hout⟩ := h none (item :: items) htails hlt
      rw [inOrder_cons_of_ne hlater hself, hfirst]
      refine ⟨fun horder => ?_, hout⟩
      obtain ⟨record, hrecord, ⟨halso, hget⟩, hothers⟩ := hin horder
      refine ⟨record, hrecord, halso, List.forall_mem_cons.mpr ⟨?_, hothers⟩⟩
      rw [hget, OptionalField.value?_eq_none (horder.ne_of_later hlater)]

end Fields

namespace TaggedType

variable {t : TaggedType ρ}

/-- The type is a sequence of the fields, which are read in the order of their numbers. -/
def HasFields (t : TaggedType ρ) (fields : List (OptionalField ρ)) : Prop :=
  (fields.map (·.number)).Pairwise (· < ·) ∧ ∃ reader, t = .sequence reader ∧ reader.Takes fields fun _ => True

/-- A sequence of elements that are each of one of the fields is read just if their numbers rise; then the record has
for each field what was listed for it, and for all others that they are missing. Otherwise something is left over. -/
theorem HasFields.whole (h : t.HasFields fields) (hitems : ∀ item ∈ items, ∃ field ∈ fields, field.Reads item)
    {bytes : List UInt8} (hbytes : bytes ∈ node .sequence {items.flatMap Prod.snd}) (hlt : bytes.length < wordLimit) :
    ((items.map Prod.fst).Pairwise (· < ·) → ∃ record, t.whole bytes = .ok record ∧
      ∀ field ∈ fields, field.get record = field.entry (field.value? items)) ∧
    (¬(items.map Prod.fst).Pairwise (· < ·) → t.whole bytes = .error .extra) := by
  obtain ⟨hfields, reader, rfl, htakes⟩ := h
  have hisItem : ∀ item ∈ items, IsItem fields item := by
    intro item hitem
    obtain ⟨field, hfield, hreads⟩ := hitems item hitem
    exact isItem_of_reads hfields hfield hreads
  have hcontent : (items.flatMap Prod.snd).length < wordLimit := by
    obtain ⟨content, rfl, helement⟩ := mem_node.mp hbytes
    exact Nat.lt_trans helement.length_content_lt hlt
  have horder : InOrder fields items ↔ (items.map Prod.fst).Pairwise (· < ·) := by
    refine ⟨fun h => h.1, fun hpairwise => ⟨hpairwise, fun item hitem => ?_⟩⟩
    obtain ⟨field, hfield, hnumber, -⟩ := hitems item hitem
    exact ⟨field, hfield, hnumber⟩
  obtain ⟨hin, hout⟩ := htakes items hisItem hcontent
  rw [whole_sequence_of_mem hbytes hlt, Fields.exhaust, StateT.run, ← horder]
  constructor
  · intro hrising
    obtain ⟨record, hread, -, hentries⟩ := hin hrising
    exact ⟨record, by rw [hread]; rfl, hentries⟩
  · intro hnot
    obtain ⟨record, rest, hread, hne⟩ := hout hnot
    rw [hread]
    simp [hne]

end TaggedType

end CertExtensions.Asn1
