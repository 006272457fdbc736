import CertExtensions.Proofs.Asn1.Grammar
import CertExtensions.Proofs.Extension.Extent
import CertExtensions.Proofs.Extension.Layout

/-!
# Texts of encoded values

Where a type is read from the encodings of its values, the text of an encoded value is its outline, laid out
(`Extension.text_of_mem`). The lines of an outline are those of its parts, one part behind the other; of what is
optional there are lines just if it is there, and numbered items count from one on (`Outline.contents_numbered`).
-/

namespace CertExtensions

open Asn1

@[simp] theorem Phrase.layOut_labelled (linkUris : Bool) (label : String) (phrase : Phrase) :
    (phrase.labelled label).layOut linkUris = label ++ phrase.layOut linkUris := by
  obtain ⟨text, uri?⟩ := phrase
  cases uri? with
  | none => rfl
  | some uri => exact String.append_assoc ..

namespace Outline

variable {α : Type} (linkUris : Bool)

@[simp] theorem contents_nil : contents linkUris [] = [] := rfl

@[simp] theorem contents_append (front back : Outline) :
    (front ++ back).contents linkUris = front.contents linkUris ++ back.contents linkUris :=
  List.map_append

@[simp] theorem contents_line (depth : Nat) (text : String) : (line depth text).contents linkUris = [(depth, text)] :=
  rfl

@[simp] theorem contents_item (depth : Nat) (content : Phrase) :
    (item depth content).contents linkUris = [(depth, content.layOut linkUris)] := rfl

@[simp] theorem contents_lines (depth : Nat) (texts : List String) :
    (lines depth texts).contents linkUris = texts.map fun text => (depth, text) := by
  unfold lines contents
  rw [List.map_map]
  rfl

@[simp] theorem contents_field? (depth : Nat) (label : String) (text : α → String) (value? : Option α) :
    (field? depth label text value?).contents linkUris =
      value?.toList.map fun value => (depth, label ++ text value) := by
  cases value? <;> rfl

@[simp] theorem contents_flatMap (outline : α → Outline) (values : List α) :
    contents linkUris (values.flatMap outline) = values.flatMap fun value => (outline value).contents linkUris := by
  unfold contents
  rw [List.map_flatMap]

theorem numbered_eq (block : Nat → α → Outline) (items : List α) :
    numbered block items = (items.mapIdx fun i item => block (i + 1) item).flatten := by
  unfold numbered
  rw [List.mapIdx_eq_zipIdx_map, List.zipIdx_eq_map_add, List.flatMap_map, List.flatMap_def]
  simp only [Nat.add_comm 1]

@[simp] theorem contents_numbered (block : Nat → α → Outline) (items : List α) :
    (numbered block items).contents linkUris =
      (items.mapIdx fun i item => (block (i + 1) item).contents linkUris).flatten := by
  rw [numbered_eq, contents, List.map_flatten, List.mapIdx_eq_zipIdx_map, List.mapIdx_eq_zipIdx_map, List.map_map]
  rfl

theorem numbered_append_cons (block : Nat → α → Outline) (front : List α) (item : α)
    (back : List α) :
    numbered block (front ++ item :: back) = numbered block front ++ (block (front.length + 1) item ++
      (back.zipIdx (front.length + 2)).flatMap fun (item, number) => block number item) := by
  unfold numbered
  rw [List.zipIdx_append, List.flatMap_append, List.zipIdx_cons, List.flatMap_cons, Nat.add_comm 1]

end Outline

namespace Extension

variable {α : Type} {t : TaggedType α} {encodings : α → Language UInt8} {outline : α → Outline} {value : α}
  {type : ExtensionType} {extension : Extension}

theorem octets_of_mem {octets : Language UInt8} (hvalue : extension.value ∈ leaf .octetString octets)
    (hlt : extension.value.length < wordLimit) :
    ∃ content ∈ octets, content.length < wordLimit ∧ octetString.whole extension.value = .ok content := by
  obtain ⟨content, hcontent, helement⟩ := mem_leaf.mp hvalue
  have hwhole := (TaggedType.whole_eq_ok_iff (show Tag.octetString.number < 31 by decide)).mpr
    ⟨TaggedType.isEncoding_ofContent_iff.mpr ⟨content, helement, rfl⟩, hlt⟩
  exact ⟨content, hcontent, Nat.lt_trans helement.length_content_lt hlt, hwhole⟩

/-- The value of an octet string is an element around its octets. -/
theorem mem_of_octets {octets : List UInt8} (h : octetString.whole extension.value = .ok octets)
    {language : Language UInt8} (hoctets : octets ∈ language) : extension.value ∈ leaf .octetString language := by
  obtain ⟨hencoding, -⟩ := (TaggedType.whole_eq_ok_iff (show Tag.octetString.number < 31 by decide)).mp h
  obtain ⟨content, helement, hdecode⟩ := TaggedType.isEncoding_ofContent_iff.mp hencoding
  cases hdecode
  exact ⟨octets, hoctets, helement⟩

theorem octets_of_body {body : ExtensionBody} (h : extension.body = .ok body) :
    ∃ octets, octetString.whole extension.value = .ok octets ∧ extension.presentation.body octets = .ok body := by
  rw [Extension.body] at h
  cases hoctets : octetString.whole extension.value with
  | error fault =>
    rw [hoctets] at h
    cases h
  | ok octets =>
    rw [hoctets] at h
    exact ⟨octets, rfl, h⟩

/-- The text of an encoded value is its outline. -/
theorem text_of_mem (htype : extension.type? = some type) (hpresentation : type.presentation = .ofType t outline)
    (h : t.schema.Finds encodings) (hvalue : extension.value ∈ leaf .octetString (encodings value))
    (hlt : extension.value.length < wordLimit) (style : LayoutStyle) :
    extension.text style = .ok (indented style.indent ((outline value).contents style.linkUris)) := by
  obtain ⟨content, hcontent, hshort, hoctets⟩ := octets_of_mem hvalue hlt
  rw [text_of_schema htype hpresentation hoctets, Schema.whole_map, h.whole hcontent hshort, ← Outline.layOut_eq]
  rfl

/-- There is no text of what is no value of the type. -/
theorem text_of_unread (htype : extension.type? = some type) (hpresentation : type.presentation = .ofType t outline)
    {octets : Language UInt8} (hunread : ∀ content ∈ octets, ∃ fault, t.whole content = .error fault)
    (hvalue : extension.value ∈ leaf .octetString octets) (style : LayoutStyle) :
    ∃ fault, extension.text style = .error fault := by
  cases hwhole : octetString.whole extension.value with
  | error fault =>
    refine ⟨fault, ?_⟩
    rw [text, body, hwhole]
    rfl
  | ok found =>
    have hlt := ((TaggedType.whole_eq_ok_iff (show Tag.octetString.number < 31 by decide)).mp hwhole).2
    obtain ⟨content, hcontent, -, hoctets⟩ := octets_of_mem hvalue hlt
    obtain ⟨fault, hfault⟩ := hunread content hcontent
    have hschema : t.schema.whole content = .error fault := hfault
    refine ⟨fault, ?_⟩
    rw [text_of_schema htype hpresentation hoctets, Schema.whole_map, hschema]
    rfl

end Extension

end CertExtensions
