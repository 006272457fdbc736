import CertExtensions.GeneralName
import CertExtensions.Proofs.Asn1.CharacterString
import CertExtensions.Proofs.Asn1.Integer

/-!
# Encodings of general names

Each of the nine forms of general names has its own tag: most of them in the place of the tag of the type inside, and
the name of a directory around it. So a list of general names is read back from each of its encodings, and an element
with any other tag makes a list unreadable, wherever it stands (`GeneralName.list_roundTrip`).
-/

open Computability

namespace CertExtensions

open Asn1 Reader

variable {bytes front content rest : List UInt8}

/-! ### Distinguished names -/

/-- An attribute type, and any element. -/
def Attribute.encodings (attr : Attribute) : Language UInt8 :=
  node .sequence (leaf .objectIdentifier (objectIdContents attr.type) * verbatim someElement attr.value)

/-- Relative names, the attributes of each in the order of a set. -/
def Name.encodings (name : Name) : Language UInt8 :=
  node .sequence (each (fun relative => node .set (ascending Attribute.encodings relative)) name.relativeNames)

private theorem Attribute.finds : Attribute.taggedType.schema.Finds Attribute.encodings := by
  refine TaggedType.finds_sequence fun attr content hcontent hlt => ?_
  obtain ⟨type, htype, value, hvalue, rfl⟩ := Language.mem_mul.mp hcontent
  rw [List.length_append] at hlt
  refine (bind_of_ok (finds_objectId.required htype (by omega) value)).trans ?_
  exact bind_of_ok (Schema.finds_any.required_last hvalue (by omega))

private theorem Name.finds : Name.taggedType.schema.Finds Name.encodings := by
  intro name front hfront hlt rest
  have hread := TaggedType.finds_sequenceOf (TaggedType.finds_setOf Attribute.finds) hfront hlt rest
  exact TaggedType.read_map_eq_found_iff.mpr ⟨name.relativeNames, hread, rfl⟩

/-! ### General names -/

namespace GeneralName

/-- The assigner of a party, inside a tag. -/
def assignerEncodings (assigner : String) : Language UInt8 := node (.context 0) (texts assigner)

def encodings : GeneralName → Language UInt8
  | .other type value =>
    node (.context 0)
      (leaf .objectIdentifier (objectIdContents type) * node (.context 0) (verbatim someElement value))
  | .mailbox address => leaf (.context 1) (asciiContents address)
  | .dns name => leaf (.context 2) (asciiContents name)
  | .x400 encoding => verbatim (elementsOf (.context 3)) encoding
  | .directory name => node (.context 4) name.encodings
  | .ediParty assigner? party =>
    node (.context 5) (optionally assignerEncodings assigner? * node (.context 1) (texts party))
  | .uri target => leaf (.context 6) (asciiContents target)
  | .ip octets => leaf (.context 7) {octets}
  | .registered id => leaf (.context 8) (objectIdContents id)

def listEncodings (names : List GeneralName) : Language UInt8 :=
  node .sequence (each encodings names)

/-- What is under a tag of its own is read by the type with this tag. -/
private theorem read_of_form {α : Type} {t : TaggedType α} {form : α → GeneralName} {value : α}
    (ht : types.find? (·.tag = t.tag) = some (t.map form)) (h : t.schema.read bytes = .found value rest) :
    schema.read bytes = .found (form value) rest :=
  Schema.read_choice_of_found ht (TaggedType.read_map_eq_found_iff.mpr ⟨value, h, rfl⟩)

/-- Elements whose content is that of a type with another tag. -/
private theorem read_ofContent {α : Type} {tag : Tag} {language : Language UInt8} {decode : List UInt8 → Except Fault α}
    {form : α → GeneralName} {value : α} (hfront : front ∈ leaf tag language)
    (ht : types.find? (·.tag = tag) = some ((TaggedType.ofContent tag decode).map form))
    (hnumber : tag.number < wordLimit) (hlt : front.length < wordLimit)
    (h : ∀ content ∈ language, decode content = .ok value) (rest : List UInt8) :
    schema.read (front ++ rest) = .found (form value) rest :=
  read_of_form ht (TaggedType.read_ofContent hfront hnumber hlt (fun content hcontent _ => h content hcontent) rest)

private theorem other_of_mem {type : ObjectId} {value : List UInt8}
    (h : content ∈ leaf .objectIdentifier (objectIdContents type) * node (.context 0) (verbatim someElement value))
    (hlt : content.length < wordLimit) :
    otherType.decode (Element.make .sequence true content) = .ok (.other type value) := by
  obtain ⟨first, hfirst, second, hsecond, rfl⟩ := Language.mem_mul.mp h
  rw [List.length_append] at hlt
  have hvalue := TaggedType.finds_explicit (show (Tag.context 0).number < wordLimit by decide) Schema.finds_any
  refine Fields.exhaust_eq_ok_iff.mpr ((bind_of_ok (finds_objectId.required hfirst (by omega) second)).trans ?_)
  exact bind_of_ok (hvalue.required_last hsecond (by omega))

private theorem ediParty_of_mem {assigner? : Option String} {party : String}
    (h : content ∈ optionally assignerEncodings assigner? * node (.context 1) (texts party))
    (hlt : content.length < wordLimit) :
    ediPartyType.decode (Element.make .sequence true content) = .ok (.ediParty assigner? party) := by
  obtain ⟨first, hfirst, second, hsecond, rfl⟩ := Language.mem_mul.mp h
  rw [List.length_append] at hlt
  have hassigner := TaggedType.finds_explicit (show (Tag.context 0).number < wordLimit by decide) finds_anyString
  have hparty := TaggedType.finds_explicit (show (Tag.context 1).number < wordLimit by decide) finds_anyString
  have hapart : (TaggedType.explicit (.context 1) anyString).schema.Apart
      (TaggedType.explicit (.context 0) anyString).schema := TaggedType.apart rfl
  have hpasses := hparty.passes_last hapart hsecond (by omega)
  refine Fields.exhaust_eq_ok_iff.mpr ((bind_of_ok (hassigner.optional hfirst (by omega) hpasses)).trans ?_)
  exact bind_of_ok (hparty.required_last hsecond (by omega))

theorem finds : schema.Finds encodings := by
  intro name front hfront hlt rest
  cases name with
  | other type value =>
    refine Schema.read_choice_of_found rfl (TaggedType.read_ofComponents hfront (by decide) hlt ?_ rest)
    exact fun content hcontent hlt => other_of_mem hcontent hlt
  | mailbox address => exact read_ofContent hfront rfl (by decide) hlt (fun _ => decodeAscii_of_mem) rest
  | dns name => exact read_ofContent hfront rfl (by decide) hlt (fun _ => decodeAscii_of_mem) rest
  | x400 encoding => exact read_of_form rfl (TaggedType.finds_undecoded (by decide) hfront hlt rest)
  | directory name =>
    refine Schema.read_choice_of_found rfl (TaggedType.read_ofComponents hfront (by decide) hlt ?_ rest)
    intro content hcontent hlt
    exact (TaggedType.whole_map directory Name.taggedType content).trans
      (congrArg (Except.map directory) (Name.finds.whole hcontent hlt))
  | ediParty assigner? party =>
    refine Schema.read_choice_of_found rfl (TaggedType.read_ofComponents hfront (by decide) hlt ?_ rest)
    exact fun content hcontent hlt => ediParty_of_mem hcontent hlt
  | uri target => exact read_ofContent hfront rfl (by decide) hlt (fun _ => decodeAscii_of_mem) rest
  | ip octets => exact read_ofContent hfront rfl (by decide) hlt (fun _ hcontent => congrArg Except.ok hcontent) rest
  | registered id =>
    exact read_ofContent hfront rfl (by decide) hlt (fun _ hcontent => ObjectId.decode_eq_ok_iff.mpr hcontent) rest

/-! ### Lists -/

/-- Elements with other tags than those of the nine forms are no general names. -/
private theorem refuses_of_foreign {tag : Tag} (hforeign : ∀ n ≤ 8, tag ≠ .context n) {element : List UInt8}
    (h : element ∈ elementsOf tag) : schema.Refuses element := by
  obtain ⟨form, content, helement⟩ := h
  refine ⟨tag, form, content, helement, fun _ decode value hdecode => ?_⟩
  obtain ⟨t, hfind, -⟩ := Option.map_eq_some_iff.mp hdecode
  have htag : t.tag = tag := by simpa using List.find?_some hfind
  have hforms : ∀ t ∈ types, ∃ n ≤ 8, t.tag = .context n := by
    simp only [types, List.forall_mem_cons]
    exact ⟨⟨0, by omega, rfl⟩, ⟨1, by omega, rfl⟩, ⟨2, by omega, rfl⟩, ⟨3, by omega, rfl⟩, ⟨4, by omega, rfl⟩,
      ⟨5, by omega, rfl⟩, ⟨6, by omega, rfl⟩, ⟨7, by omega, rfl⟩, ⟨8, by omega, rfl⟩, nofun⟩
  obtain ⟨n, hn, hcontext⟩ := hforms t (List.mem_of_find?_eq_some hfind)
  exact absurd (htag.symm.trans hcontext) (hforeign n hn)

/-- A list of general names is read back from each of its encodings, and an element with a tag that is none of theirs
makes it unreadable, whichever elements are in front of it and whatever is behind it. -/
theorem list_roundTrip :
    (∀ names, ∀ bytes ∈ listEncodings names, bytes.length < wordLimit → listType.whole bytes = .ok names) ∧
      ∀ tag : Tag, (∀ n ≤ 8, tag ≠ .context n) →
        ∀ bytes ∈ node .sequence ((⨆ tag, elementsOf tag)∗ * (elementsOf tag * ⊤)),
          ∃ fault, listType.whole bytes = .error fault := by
  constructor
  · intro names bytes hbytes hlt
    exact (TaggedType.finds_sequenceOf finds).whole hbytes hlt
  · intro tag hforeign bytes hbytes
    exact TaggedType.sequenceOf_refuses (fun _ helement => refuses_of_foreign hforeign helement) hbytes

theorem list_roundTrip_nineForms :
    (∃ bytes ∈ listEncodings [.other ⟨[1, 2, 3]⟩ [5, 0], .mailbox "a", .dns "b", .x400 [163, 0],
        .directory ⟨[[⟨⟨[2, 5, 4, 3]⟩, [12, 1, 65]⟩]]⟩, .ediParty (some "c") "d", .uri "e", .ip [127, 0, 0, 1],
        .registered ⟨[1, 2, 3]⟩],
      listType.whole bytes = .ok [.other ⟨[1, 2, 3]⟩ [5, 0], .mailbox "a", .dns "b", .x400 [163, 0],
        .directory ⟨[[⟨⟨[2, 5, 4, 3]⟩, [12, 1, 65]⟩]]⟩, .ediParty (some "c") "d", .uri "e", .ip [127, 0, 0, 1],
        .registered ⟨[1, 2, 3]⟩]) ∧
    ∃ fault, listType.whole [48, 5, 130, 1, 98, 137, 0] = .error fault := by
  have hid : [42, 3] ∈ objectIdContents ⟨[1, 2, 3]⟩ := ObjectId.decode_eq_ok_iff.mp rfl
  have hnull : IsElement .null false [] [5, 0] := ⟨[0], .short (by decide), rfl⟩
  have hname : IsElement .utf8String false [65] [12, 1, 65] := ⟨[1], .short (by decide), rfl⟩
  have helement : ∀ {tag : Tag} {content bytes : List UInt8}, IsElement tag false content bytes → tag ≠ .universal 0 →
      tag.number < wordLimit → bytes ∈ verbatim someElement bytes :=
    fun h hne hnumber => ⟨rfl, mem_someElement_of_isElement h hne hnumber⟩
  have hascii : ∀ text : String, (∀ c ∈ text.toList, c.toNat < 128) → characterBytes text ∈ asciiContents text :=
    fun text h => ⟨h, rfl⟩
  have hother := make_mem_node (Language.append_mem_mul (make_mem_leaf hid (by decide) .objectIdentifier)
    (make_mem_node (helement hnull (by decide) (by decide)) (by decide) (.context 0))) (by decide) (.context 0)
  have hmailbox := make_mem_leaf (hascii "a" (by simp)) (by decide) (.context 1)
  have hdns := make_mem_leaf (hascii "b" (by simp)) (by decide) (.context 2)
  have hx400 : [163, 0] ∈ encodings (.x400 [163, 0]) := ⟨rfl, true, [], [0], .short (by decide), rfl⟩
  have hcommonName : ObjectId.decode [85, 4, 3] = .ok ⟨[2, 5, 4, 3]⟩ := rfl
  have hattribute := make_mem_node (Language.append_mem_mul (make_mem_objectId hcommonName (by decide))
    (helement hname (by decide) (by decide))) (by decide) .sequence
  have hrelative : [48, 8, 6, 3, 85, 4, 3, 12, 1, 65] ∈ ascending Attribute.encodings [⟨⟨[2, 5, 4, 3]⟩, [12, 1, 65]⟩] :=
    ⟨[_], .cons hattribute .nil, .singleton _, rfl⟩
  have hdirectory := make_mem_node (make_mem_node (Language.append_mem_mul (make_mem_node hrelative (by decide) .set)
    Language.nil_mem_one) (by decide) .sequence) (by decide) (.context 4)
  have hassigner : ∀ c ∈ "c".toList, c.toNat < 128 := by simp
  have hparty : ∀ c ∈ "d".toList, c.toNat < 128 := by simp
  have hedi := make_mem_node (Language.append_mem_mul
    (make_mem_node (make_mem_texts hassigner (by decide)) (by decide) (.context 0))
    (make_mem_node (make_mem_texts hparty (by decide)) (by decide) (.context 1))) (by decide) (.context 5)
  have huri := make_mem_leaf (hascii "e" (by simp)) (by decide) (.context 6)
  have hoctets : [127, 0, 0, 1] ∈ ({[127, 0, 0, 1]} : Language UInt8) := rfl
  have hip := make_mem_leaf hoctets (by decide) (.context 7)
  have hregistered := make_mem_leaf hid (by decide) (.context 8)
  have hlist := make_mem_node (Language.append_mem_mul hother <| Language.append_mem_mul hmailbox <|
    Language.append_mem_mul hdns <| Language.append_mem_mul hx400 <| Language.append_mem_mul hdirectory <|
    Language.append_mem_mul hedi <| Language.append_mem_mul huri <| Language.append_mem_mul hip <|
    Language.append_mem_mul hregistered Language.nil_mem_one) (by decide) .sequence
  constructor
  · exact ⟨_, hlist, list_roundTrip.1 _ _ hlist (by decide)⟩
  · have hfront : [130, 1, 98] ∈ (⨆ tag, elementsOf tag)∗ :=
      mem_kstar_of_mem (Language.mem_iSup.mpr ⟨.context 2, false, [98], [1], .short (by decide), rfl⟩)
    have hforeign : [137, 0] ∈ elementsOf (.context 9) := ⟨false, [], [0], .short (by decide), rfl⟩
    refine list_roundTrip.2 (.context 9) ?_ _
      ⟨_, Language.append_mem_mul hfront (Language.append_mem_mul hforeign trivial), [5], .short (by decide), rfl⟩
    intro n hn heq
    cases heq
    omega

/-- Numbers that do not fit a word are refused, as the tag number of a value of another form and as a number of an
object identifier, and so are printable strings with a question mark. -/
theorem list_limits :
    [48, 20, 160, 18, 6, 2, 42, 3, 160, 12, 159, 130, 128, 128, 128, 128, 128, 128, 128, 128, 0, 0] ∈
      node .sequence (node (.context 0) (leaf .objectIdentifier (objectIdContents ⟨[1, 2, 3]⟩) *
        node (.context 0) (elementsOf (.context (2 ^ 64))))) ∧
    listType.whole [48, 20, 160, 18, 6, 2, 42, 3, 160, 12, 159, 130, 128, 128, 128, 128, 128, 128, 128, 128, 0, 0] =
      .error .integerOverflow ∧
    [48, 13, 136, 11, 105, 130, 129, 129, 129, 129, 129, 129, 129, 129, 1] ∈
      node .sequence (leaf (.context 8) {ObjectId.content ⟨[2, 25, 18519369050377699457]⟩}) ∧
    listType.whole [48, 13, 136, 11, 105, 130, 129, 129, 129, 129, 129, 129, 129, 129, 1] = .error .integerOverflow ∧
    [48, 8, 165, 6, 161, 4, 19, 2, 97, 63] ∈
      node .sequence (node (.context 5) (node (.context 1) (leaf .printableString {characterBytes "a?"}))) ∧
    listType.whole [48, 8, 165, 6, 161, 4, 19, 2, 97, 63] = .error .invalid := by
  have hid : [42, 3] ∈ objectIdContents ⟨[1, 2, 3]⟩ := ObjectId.decode_eq_ok_iff.mp rfl
  have htype : [6, 2, 42, 3] ∈ leaf .objectIdentifier (objectIdContents ⟨[1, 2, 3]⟩) :=
    ⟨[42, 3], hid, [2], .short (by decide), rfl⟩
  have hinner : [160, 12, 159, 130, 128, 128, 128, 128, 128, 128, 128, 128, 0, 0] ∈
      node (.context 0) (elementsOf (.context (2 ^ 64))) := ⟨_, unreadable_mem_elementsOf, [12], .short (by decide), rfl⟩
  have hother : [160, 18, 6, 2, 42, 3, 160, 12, 159, 130, 128, 128, 128, 128, 128, 128, 128, 128, 0, 0] ∈
      node (.context 0) (leaf .objectIdentifier (objectIdContents ⟨[1, 2, 3]⟩) *
        node (.context 0) (elementsOf (.context (2 ^ 64)))) :=
    ⟨_, Language.append_mem_mul htype hinner, [18], .short (by decide), rfl⟩
  have hnumber : [105, 130, 129, 129, 129, 129, 129, 129, 129, 129, 1] =
      ObjectId.content ⟨[2, 25, 18519369050377699457]⟩ := by decide
  have hregistered : [136, 11, 105, 130, 129, 129, 129, 129, 129, 129, 129, 129, 1] ∈
      leaf (.context 8) {ObjectId.content ⟨[2, 25, 18519369050377699457]⟩} :=
    ⟨_, hnumber, [11], .short (by decide), rfl⟩
  have hparty : [161, 4, 19, 2, 97, 63] ∈ node (.context 1) (leaf .printableString {characterBytes "a?"}) :=
    ⟨[19, 2, 97, 63], ⟨[97, 63], rfl, [2], .short (by decide), rfl⟩, [4], .short (by decide), rfl⟩
  have hedi : [165, 6, 161, 4, 19, 2, 97, 63] ∈
      node (.context 5) (node (.context 1) (leaf .printableString {characterBytes "a?"})) :=
    ⟨_, hparty, [6], .short (by decide), rfl⟩
  exact ⟨⟨_, hother, [20], .short (by decide), rfl⟩, rfl, ⟨_, hregistered, [13], .short (by decide), rfl⟩, rfl,
    ⟨_, hedi, [8], .short (by decide), rfl⟩, rfl⟩

end GeneralName

end CertExtensions
