import CertExtensions.Name
import CertExtensions.Proofs.Hex
import CertExtensions.Proofs.ObjectId.Dotted
import CertExtensions.Proofs.Text.Escape
import Mathlib.Data.List.Forall2

/-!
# What the text of a name tells

The text of a distinguished name tells everything that it shows. Separators stand in it only between what they separate:
in a value they are escaped (`guarded_attributeText`), and no type has one in its name. A number sign at the start of
a value tells the hex of an element from a character string (`head?_escape`), and escapes can be undone
(`unescape_escape`). So two names have one text exactly where they are alike, attribute by attribute
(`text_unambiguous`).
-/

namespace CertExtensions

open Asn1 Text

/-! ### Attribute types -/

namespace Attribute

private theorem keyword_injective : Function.Injective keyword :=
  ObjectId.nameIn_injective (by decide) (by decide)

theorem mem_keyword {type : ObjectId} {c : Char} (h : c ∈ (keyword type).toList) : c.isAlphanum ∨ c = '.' := by
  have hwords : ∀ entry ∈ keywords, entry.2.toList.all Char.isAlphanum := by decide
  rcases ObjectId.nameIn_cases keywords type with hentry | hdotted
  · exact .inl (List.all_eq_true.mp (hwords _ hentry) c h)
  · have hkeyword : keyword type = type.dotted := hdotted
    rw [hkeyword] at h
    refine (ObjectId.mem_dotted h).imp_left fun hdigit => ?_
    simp [Char.isAlphanum, hdigit]

end Attribute

namespace Name

/-! ### Escaped values -/

variable {separator : Char}

private theorem ne_slash_of_plain {c : Char} (h : ¬ isSpecial c) : c ≠ '\\' := by
  rintro rfl
  exact h rfl

private theorem unescape_escapeRest (text : List Char) : unescape (escapeRest text) = text := by
  fun_induction escapeRest text with
  | case1 => rfl
  | case2 c h => rfl
  | case3 c h =>
    rw [Bool.or_eq_true, not_or] at h
    exact unescape_cons (ne_slash_of_plain h.1) []
  | case4 c rest _ h ih => rw [unescape, ih]
  | case5 c rest _ h ih => rw [unescape_cons (ne_slash_of_plain h), ih]

theorem unescape_escape (text : List Char) : unescape (escape text) = text := by
  cases text with
  | nil => rfl
  | cons c rest =>
    rw [escape]
    split
    · rw [unescape, unescape_escapeRest]
    · next h =>
      rw [Bool.or_eq_true, not_or, Bool.or_eq_true, not_or] at h
      rw [unescape_cons (ne_slash_of_plain h.1.1), unescape_escapeRest]

private theorem escape_injective : Function.Injective escape :=
  Function.LeftInverse.injective unescape_escape

private theorem guarded_escapeRest (hseparator : isSpecial separator) (text : List Char) :
    Guarded separator (escapeRest text) := by
  have hplain : ∀ {c : Char}, ¬ isSpecial c → c ≠ separator := by
    rintro c h rfl
    exact h hseparator
  fun_induction escapeRest text with
  | case1 => exact .nil
  | case2 c h => exact .escaped c .nil
  | case3 c h =>
    rw [Bool.or_eq_true, not_or] at h
    exact .plain (ne_slash_of_plain h.1) (hplain h.1) .nil
  | case4 c rest _ h ih => exact .escaped c ih
  | case5 c rest _ h ih => exact .plain (ne_slash_of_plain h) (hplain h) ih

private theorem guarded_escape (hseparator : isSpecial separator) (text : List Char) :
    Guarded separator (escape text) := by
  cases text with
  | nil => exact .nil
  | cons c rest =>
    have hrest := guarded_escapeRest hseparator rest
    rw [escape]
    split
    · exact .escaped c hrest
    · next h =>
      rw [Bool.or_eq_true, not_or, Bool.or_eq_true, not_or] at h
      refine .plain (ne_slash_of_plain h.1.1) ?_ hrest
      rintro rfl
      exact h.1.1 hseparator

theorem head?_escape (text : List Char) : (escape text).head? ≠ some '#' := by
  cases text with
  | nil => nofun
  | cons c rest =>
    rw [escape]
    split
    · exact nofun
    · next h =>
      intro heq
      have hc : c = '#' := Option.some.inj heq
      simp [hc] at h

/-! ### Values and attributes -/

/-- Whether two encoded values are shown alike: as one character string, or as one element that is none. -/
def AlikeValues (value other : List UInt8) : Prop :=
  (∃ text, anyString.whole value = .ok text ∧ anyString.whole other = .ok text) ∨
    (∀ text, anyString.whole value ≠ .ok text) ∧ (∀ text, anyString.whole other ≠ .ok text) ∧ value = other

private theorem valueText_eq_iff {value other : List UInt8} :
    valueText value = valueText other ↔ AlikeValues value other := by
  unfold valueText AlikeValues
  cases hvalue : anyString.whole value with
  | ok text =>
    cases hother : anyString.whole other with
    | ok shown => simp [escape_injective.eq_iff, String.toList_inj, eq_comm]
    | error fault =>
      have hne : escape text.toList ≠ '#' :: Hex.digits other := by
        intro heq
        exact head?_escape text.toList (by rw [heq]; rfl)
      simp [hne]
  | error fault =>
    cases hother : anyString.whole other with
    | ok shown =>
      have hne : '#' :: Hex.digits value ≠ escape shown.toList := by
        intro heq
        exact head?_escape shown.toList (by rw [← heq]; rfl)
      simp [hne]
    | error fault' => simp [Hex.digits_injective.eq_iff]

private theorem ne_special_of_isAlphanum {c : Char} (h : c.isAlphanum) (hseparator : isSpecial separator) :
    c ≠ separator := by
  rintro rfl
  simp only [isSpecial, Bool.or_eq_true, beq_iff_eq] at hseparator
  rcases hseparator with ((((((rfl | rfl) | rfl) | rfl) | rfl) | rfl) | rfl) | rfl <;> exact absurd h (by decide)

private theorem guarded_valueText (hseparator : isSpecial separator) (value : List UInt8) :
    Guarded separator (valueText value) := by
  unfold valueText
  cases anyString.whole value with
  | ok text => exact guarded_escape hseparator text.toList
  | error fault =>
    have hsign : '#' ≠ separator := by
      rintro rfl
      exact absurd hseparator (by decide)
    refine .plain (by decide) hsign (.of_forall fun c hc => ?_)
    have hdigit := Hex.isAlphanum_of_mem_digits hc
    exact ⟨ne_special_of_isAlphanum hdigit rfl, ne_special_of_isAlphanum hdigit hseparator⟩

private theorem ne_special_of_mem_keyword {type : ObjectId} {c : Char} (h : c ∈ (Attribute.keyword type).toList)
    (hseparator : isSpecial separator) : c ≠ separator := by
  rcases Attribute.mem_keyword h with hword | rfl
  · exact ne_special_of_isAlphanum hword hseparator
  · rintro rfl
    exact absurd hseparator (by decide)

/-- The equals sign behind a type is one of the special characters too, but the first one ends the type. -/
theorem guarded_attributeText (hseparator : isSpecial separator) (hsign : separator ≠ '=') (attr : Attribute) :
    Guarded separator (attributeText attr) := by
  refine .append (.of_forall fun c hc => ?_) (.plain (by decide) hsign.symm (guarded_valueText hseparator attr.value))
  exact ⟨ne_special_of_mem_keyword hc rfl, ne_special_of_mem_keyword hc hseparator⟩

private theorem attributeText_ne_nil (attr : Attribute) : attributeText attr ≠ [] := by
  simp [attributeText]

/-- Whether two attributes are shown alike: they have one type, and their values are shown alike. -/
def Alike (attr other : Attribute) : Prop :=
  attr.type = other.type ∧ AlikeValues attr.value other.value

private theorem attributeText_eq_iff {attr other : Attribute} :
    attributeText attr = attributeText other ↔ Alike attr other := by
  have hkey : ∀ type : ObjectId, '=' ∉ (Attribute.keyword type).toList := by
    intro type h
    have hsign : isSpecial '=' := rfl
    exact ne_special_of_mem_keyword h hsign rfl
  constructor
  · intro h
    -- the type ends at the first equals sign
    have hsplit := congrArg (split '=') h
    rw [attributeText, attributeText, split_append (hkey attr.type), split_append (hkey other.type)] at hsplit
    obtain ⟨htype, hvalue⟩ := List.cons.inj hsplit
    refine ⟨Attribute.keyword_injective (String.toList_inj.mp htype), valueText_eq_iff.mp ?_⟩
    rw [← join_split '=' (valueText attr.value), hvalue, join_split]
  · rintro ⟨htype, hvalue⟩
    rw [attributeText, attributeText, htype, valueText_eq_iff.mpr hvalue]

/-! ### Names -/

private theorem map_eq_iff_forall₂ {α β : Type} {f : α → β} {r : α → α → Prop} (h : ∀ a b, f a = f b ↔ r a b)
    {items others : List α} : items.map f = others.map f ↔ List.Forall₂ r items others := by
  have hrelation : r = fun a b => f a = f b := by
    funext a b
    exact propext (h a b).symm
  rw [hrelation, ← List.forall₂_eq_eq_eq, List.forall₂_map_left_iff, List.forall₂_map_right_iff]

private theorem relativeText_eq_iff {relative other : RelativeName} :
    relativeText relative = relativeText other ↔ List.Forall₂ Alike relative other := by
  have hpieces : ∀ attrs : RelativeName, ∀ piece ∈ attrs.map attributeText, piece ≠ [] ∧ Guarded '+' piece := by
    intro attrs piece hpiece
    obtain ⟨attr, -, rfl⟩ := List.mem_map.mp hpiece
    exact ⟨attributeText_ne_nil attr, guarded_attributeText rfl (by decide) attr⟩
  rw [relativeText, relativeText, join_eq_join_iff (by decide) (hpieces relative) (hpieces other)]
  exact map_eq_iff_forall₂ fun a b => attributeText_eq_iff

private theorem relativeText_eq_nil_iff {relative : RelativeName} : relativeText relative = [] ↔ relative = [] := by
  have hpieces : ∀ piece ∈ relative.map attributeText, piece ≠ [] := by
    intro piece hpiece
    obtain ⟨attr, -, rfl⟩ := List.mem_map.mp hpiece
    exact attributeText_ne_nil attr
  rw [relativeText, join_eq_nil_iff hpieces, List.map_eq_nil_iff]

private theorem guarded_relativeText (relative : RelativeName) : Guarded ',' (relativeText relative) := by
  refine guarded_join (by decide) (by decide) fun piece hpiece => ?_
  obtain ⟨attr, -, rfl⟩ := List.mem_map.mp hpiece
  exact guarded_attributeText rfl (by decide) attr

/-- Names whose relative names all have an attribute have one text exactly where they have the same number of relative
names, each with the same number of attributes, of the same types, and each value is shown alike in both. The string
that a value stands for comes of leaving the escapes out. -/
theorem text_unambiguous {name other : Name} (hname : ∀ relative ∈ name.relativeNames, relative ≠ [])
    (hother : ∀ relative ∈ other.relativeNames, relative ≠ []) :
    (name.text = other.text ↔ List.Forall₂ (List.Forall₂ Alike) name.relativeNames other.relativeNames) ∧
      ∀ value : String, String.ofList (unescape (escape value.toList)) = value := by
  have hpieces : ∀ relatives : List RelativeName, (∀ relative ∈ relatives, relative ≠ []) →
      ∀ piece ∈ relatives.map relativeText, piece ≠ [] ∧ Guarded ',' piece := by
    intro relatives h piece hpiece
    obtain ⟨relative, hrelative, rfl⟩ := List.mem_map.mp hpiece
    exact ⟨fun hnil => h relative hrelative (relativeText_eq_nil_iff.mp hnil), guarded_relativeText relative⟩
  constructor
  · rw [text, text, String.ofList_inj, join_eq_join_iff (by decide) (hpieces _ hname) (hpieces _ hother)]
    exact map_eq_iff_forall₂ fun a b => relativeText_eq_iff
  · intro value
    rw [unescape_escape, String.ofList_toList]

/-- An element in hex and a common name of blanks around a comma, the name in UTF-8 and in UTF-16. -/
theorem text_unambiguous_twoEncodings :
    let number : Attribute := ⟨⟨[1, 2, 3]⟩, [2, 1, 7]⟩
    let name : Name := ⟨[[number, ⟨⟨[2, 5, 4, 3]⟩, [0x0C, 3, 0x20, 0x2C, 0x20]⟩]]⟩
    let other : Name := ⟨[[number, ⟨⟨[2, 5, 4, 3]⟩, [0x1E, 6, 0, 0x20, 0, 0x2C, 0, 0x20]⟩]]⟩
    Name.taggedType.whole [0x30, 0x17, 0x31, 0x15, 0x30, 7, 6, 2, 0x2A, 3, 2, 1, 7,
        0x30, 10, 6, 3, 0x55, 4, 3, 0x0C, 3, 0x20, 0x2C, 0x20] = .ok name ∧
      Name.taggedType.whole [0x30, 0x1A, 0x31, 0x18, 0x30, 7, 6, 2, 0x2A, 3, 2, 1, 7,
        0x30, 13, 6, 3, 0x55, 4, 3, 0x1E, 6, 0, 0x20, 0, 0x2C, 0, 0x20] = .ok other ∧
      name ≠ other ∧ name.text = other.text ∧ other.text = "1.2.3=#020107+CN=\\ \\,\\ " := by
  intro number name other
  have hname : ∀ relative ∈ name.relativeNames, relative ≠ [] := by decide
  have hother : ∀ relative ∈ other.relativeNames, relative ≠ [] := by decide
  have hvalues : AlikeValues [0x0C, 3, 0x20, 0x2C, 0x20] [0x1E, 6, 0, 0x20, 0, 0x2C, 0, 0x20] :=
    .inl ⟨" , ", by decide, by decide⟩
  have hnumber : Alike number number := ⟨rfl, .inr ⟨nofun, nofun, rfl⟩⟩
  have halike : List.Forall₂ (List.Forall₂ Alike) name.relativeNames other.relativeNames :=
    .cons (.cons hnumber (.cons ⟨rfl, hvalues⟩ .nil)) .nil
  refine ⟨by decide, by decide, by decide, ?_, by decide⟩
  exact (text_unambiguous hname hother).1.mpr halike

/-- Without an attribute a relative name leaves nothing to see. -/
example : (⟨[[]]⟩ : Name).text = (⟨[]⟩ : Name).text := rfl

end Name

end CertExtensions
