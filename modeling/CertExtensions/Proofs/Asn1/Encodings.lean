import CertExtensions.Proofs.Asn1.AcceptedElement
import Mathlib.Computability.Language
import Mathlib.Order.ConditionallyCompleteLattice.Basic
import Mathlib.Order.CompletePartialOrder

/-!
# Languages of encodings

A type says which bytes are an encoding of which value, so each value has a language: the set of its encodings. The
languages of structured values are built from those of their parts: bytes one behind the other are a product, a choice
is a sum, and `leaf` and `node` put an element around a content. Lengths may have any of their forms, so these languages
hold more than one encoding of a value even where only one of them is the shortest.

`someElement` is the language of all elements that are read, whatever is in them. Two facts about the reader carry over
to it: an identifier is read in each of its forms (`IsIdentifier.read`), and what is read is one of the forms
(`isIdentifier_of_read`).
-/

namespace CertExtensions.Asn1

/-! ### Elements -/

/-- Primitive elements of the tag around one of the contents. -/
def leaf (tag : Tag) (contents : Language UInt8) : Language UInt8 :=
  {bytes | ∃ content ∈ contents, IsElement tag false content bytes}

/-- Constructed elements of the tag around one of the contents. -/
def node (tag : Tag) (contents : Language UInt8) : Language UInt8 :=
  {bytes | ∃ content ∈ contents, IsElement tag true content bytes}

/-- Elements of the tag, whatever their form and content are. -/
def elementsOf (tag : Tag) : Language UInt8 :=
  {bytes | ∃ form content, IsElement tag form content bytes}

/-- Nothing but the given bytes, if they are of the language. -/
def verbatim (language : Language UInt8) (bytes : List UInt8) : Language UInt8 :=
  {found | found = bytes ∧ found ∈ language}

variable {α : Type} {tag : Tag} {contents : Language UInt8} {bytes : List UInt8}

theorem mem_leaf : bytes ∈ leaf tag contents ↔ ∃ content ∈ contents, IsElement tag false content bytes := Iff.rfl

theorem mem_node : bytes ∈ node tag contents ↔ ∃ content ∈ contents, IsElement tag true content bytes := Iff.rfl

theorem mem_verbatim {language : Language UInt8} {found : List UInt8} :
    found ∈ verbatim language bytes ↔ found = bytes ∧ found ∈ language := Iff.rfl

theorem make_mem_leaf {content : List UInt8} (h : content ∈ contents) (hlt : content.length < wordLimit) (tag : Tag) :
    (Element.make tag false content).encoding ∈ leaf tag contents :=
  ⟨content, h, isElement_make hlt tag false⟩

theorem make_mem_node {content : List UInt8} (h : content ∈ contents) (hlt : content.length < wordLimit) (tag : Tag) :
    (Element.make tag true content).encoding ∈ node tag contents :=
  ⟨content, h, isElement_make hlt tag true⟩

/-! ### Optional parts and lists -/

/-- No bytes, or an encoding of the value if there is one. -/
def optionally (encodings : α → Language UInt8) : Option α → Language UInt8
  | none => 1
  | some value => encodings value

/-- Encodings of the values one behind the other. -/
def each (encodings : α → Language UInt8) (values : List α) : Language UInt8 :=
  (values.map encodings).prod

/-- Encodings of the values one behind the other, where none is less than the one in front of it. -/
def ascending (encodings : α → Language UInt8) (values : List α) : Language UInt8 :=
  {bytes | ∃ fronts, List.Forall₂ (fun value front => front ∈ encodings value) values fronts ∧
    fronts.IsChain (fun front next => ¬next < front) ∧ bytes = fronts.flatten}

theorem each_append (encodings : α → Language UInt8) (front back : List α) :
    each encodings (front ++ back) = each encodings front * each encodings back := by
  rw [each, List.map_append, List.prod_append]
  rfl

theorem each_cons (encodings : α → Language UInt8) (value : α) (values : List α) :
    each encodings (value :: values) = encodings value * each encodings values := by
  rw [each, List.map_cons, List.prod_cons]
  rfl

theorem mem_each {encodings : α → Language UInt8} {values : List α} :
    bytes ∈ each encodings values ↔
      ∃ fronts, List.Forall₂ (fun value front => front ∈ encodings value) values fronts ∧ bytes = fronts.flatten := by
  unfold each
  induction values generalizing bytes with
  | nil =>
    rw [List.map_nil, List.prod_nil, Language.mem_one]
    constructor
    · rintro rfl
      exact ⟨[], .nil, rfl⟩
    · rintro ⟨fronts, hall, rfl⟩
      cases hall
      rfl
  | cons value values ih =>
    rw [List.map_cons, List.prod_cons, Language.mem_mul]
    constructor
    · rintro ⟨front, hfront, rest, hrest, rfl⟩
      obtain ⟨fronts, hall, rfl⟩ := ih.mp hrest
      exact ⟨front :: fronts, .cons hfront hall, rfl⟩
    · rintro ⟨fronts, hall, rfl⟩
      cases hall with
      | @cons _ front _ fronts hfront hall => exact ⟨front, hfront, fronts.flatten, ih.mpr ⟨fronts, hall, rfl⟩, rfl⟩

/-! ### Identifiers -/

/-- The number that base 128 digits form behind the digits of a number; the top bits of the bytes do not count. -/
def base128Value (acc : Nat) (digits : List UInt8) : Nat :=
  digits.foldl (fun n b => n * 128 + b.toNat % 128) acc

/-- Whether the bytes give the identifier: one byte for a tag number below 31, and otherwise a byte that announces
digits, all but the last with the top bit set, which may start with zeros. -/
inductive IsIdentifier (id : Identifier) : List UInt8 → Prop where
  | short (h : id.tag.number < 31) :
    IsIdentifier id [UInt8.ofNat (64 * id.tag.cls.bits + 32 * id.form + id.tag.number)]
  | long {digits : List UInt8} {last : UInt8} (h : 31 ≤ id.tag.number) (hmore : ∀ b ∈ digits, 128 ≤ b)
    (hlast : last < 128) (hvalue : base128Value 0 (digits ++ [last]) = id.tag.number) :
    IsIdentifier id (UInt8.ofNat (64 * id.tag.cls.bits + 32 * id.form + 31) :: (digits ++ [last]))

private theorem base128Value_append (acc : Nat) (front back : List UInt8) :
    base128Value acc (front ++ back) = base128Value (base128Value acc front) back :=
  List.foldl_append

private theorem le_base128Value (acc : Nat) (digits : List UInt8) : acc ≤ base128Value acc digits := by
  induction digits generalizing acc with
  | nil => exact Nat.le_refl acc
  | cons b digits ih =>
    have hmore : acc * 128 + b.toNat % 128 ≤ base128Value acc (b :: digits) := ih _
    omega

private theorem base128Value_base128Digits {fuel n : Nat} (h : n ≤ fuel) :
    base128Value 0 (base128Digits fuel n) = n := by
  induction fuel generalizing n with
  | zero =>
    obtain rfl : n = 0 := by omega
    rfl
  | succ fuel ih =>
    by_cases hn : n = 0
    · rw [hn, base128Digits, if_pos rfl]
      rfl
    · have hb : (UInt8.ofNat (128 + n % 128)).toNat = 128 + n % 128 := BigEndian.toNat_ofNat_of_lt (by omega)
      rw [base128Digits_succ hn, base128Value_append, ih (by omega)]
      change n / 128 * 128 + (UInt8.ofNat (128 + n % 128)).toNat % 128 = n
      omega

/-- The identifier that is written is one of its forms. -/
theorem isIdentifier_encodeIdentifier (id : Identifier) : IsIdentifier id (encodeIdentifier id) := by
  rw [encodeIdentifier_eq]
  split
  · next h => exact .short h
  · next h =>
    have hlast : (UInt8.ofNat (id.tag.number % 128)).toNat = id.tag.number % 128 :=
      BigEndian.toNat_ofNat_of_lt (by omega)
    refine .long (Nat.not_lt.mp h) (fun b hb => ?_) ?_ ?_
    · exact UInt8.le_iff_toNat_le.mpr (le_of_mem_base128Digits hb)
    · rw [BigEndian.ofNat_lt_half_iff (by omega)]
      omega
    · rw [base128Value_append, base128Value_base128Digits (by omega)]
      change id.tag.number / 128 * 128 + (UInt8.ofNat (id.tag.number % 128)).toNat % 128 = id.tag.number
      omega

/-- A number that does not fit a word is noticed at its last digit. -/
private theorem readBase128_append {digits : List UInt8} {last : UInt8} (acc : Nat) (hmore : ∀ b ∈ digits, 128 ≤ b)
    (hlast : last < 128) (rest : List UInt8) :
    readBase128 acc (digits ++ last :: rest) =
      if base128Value acc (digits ++ [last]) < wordLimit then .ok (base128Value acc (digits ++ [last]), rest)
      else .error .integerOverflow := by
  induction digits generalizing acc with
  | nil =>
    have hlast' : last.toNat < 128 := UInt8.lt_iff_toNat_lt.mp hlast
    have hvalue : base128Value acc ([] ++ [last]) = acc * 128 + last.toNat := by
      rw [← Nat.mod_eq_of_lt hlast']
      rfl
    -- the limit is a multiple of 128
    have hlimit : wordLimit ≤ acc * 128 ↔ ¬acc * 128 + last.toNat < wordLimit := by
      unfold wordLimit
      omega
    rw [List.nil_append, readBase128, hvalue]
    by_cases hfits : acc * 128 + last.toNat < wordLimit
    · rw [if_neg (mt hlimit.mp (not_not.mpr hfits)), if_pos hlast, if_pos hfits]
    · rw [if_pos (hlimit.mpr hfits), if_neg hfits]
  | cons b digits ih =>
    have hb : 128 ≤ b.toNat := UInt8.le_iff_toNat_le.mp (hmore b List.mem_cons_self)
    have hge : ¬b < 128 := UInt8.not_lt.mpr (hmore b List.mem_cons_self)
    have hlt := b.toNat_lt
    have hdigit : b.toNat % 128 = b.toNat - 128 := by omega
    have hvalue : base128Value acc (b :: digits ++ [last]) =
        base128Value (acc * 128 + (b.toNat - 128)) (digits ++ [last]) := by
      rw [← hdigit]
      rfl
    have hle := le_base128Value (acc * 128 + (b.toNat - 128)) (digits ++ [last])
    rw [List.cons_append, readBase128, hvalue]
    by_cases hlimit : wordLimit ≤ acc * 128
    · rw [if_pos hlimit, if_neg (by omega)]
    · rw [if_neg hlimit, if_neg hge]
      exact ih _ fun c hc => hmore c (List.mem_cons_of_mem _ hc)

private theorem readBase128_eq_ok {bytes rest : List UInt8} {acc n : Nat} (h : readBase128 acc bytes = .ok (n, rest)) :
    n < wordLimit ∧ ∃ digits last, (∀ b ∈ digits, 128 ≤ b) ∧ last < 128 ∧ bytes = digits ++ last :: rest ∧
      n = base128Value acc (digits ++ [last]) := by
  induction bytes generalizing acc with
  | nil => cases h
  | cons b bytes ih =>
    rw [readBase128] at h
    split at h
    · cases h
    · next hfits =>
      have hlt := b.toNat_lt
      split at h
      · next hlast =>
        cases h
        have hb : b.toNat < 128 := UInt8.lt_iff_toNat_lt.mp hlast
        refine ⟨?_, [], b, List.forall_mem_nil _, hlast, rfl, ?_⟩
        · unfold wordLimit at hfits ⊢
          omega
        · rw [← Nat.mod_eq_of_lt hb]
          rfl
      · next hge =>
        have hb : 128 ≤ b := UInt8.not_lt.mp hge
        have hle : 128 ≤ b.toNat := UInt8.le_iff_toNat_le.mp hb
        have hdigit : b.toNat - 128 = b.toNat % 128 := by omega
        obtain ⟨hn, digits, last, hmore, hlast, rfl, rfl⟩ := ih h
        refine ⟨hn, b :: digits, last, List.forall_mem_cons.mpr ⟨hb, hmore⟩, hlast, rfl, ?_⟩
        rw [hdigit]
        rfl

/-- An identifier is read in each of its forms, unless its tag number does not fit a word. -/
theorem IsIdentifier.read {id : Identifier} {front : List UInt8} (h : IsIdentifier id front) (rest : List UInt8) :
    readIdentifier (front ++ rest) =
      if id.tag.number < wordLimit then .ok (id, rest) else .error .integerOverflow := by
  have hcls := id.tag.cls.bits_lt
  have hform := id.form_lt
  cases h with
  | short h =>
    have hnumber : id.tag.number < wordLimit := Nat.lt_trans h (by decide)
    have hread := readIdentifier_encodeIdentifier id hnumber rest
    rw [encodeIdentifier_eq, if_pos h] at hread
    rw [hread, if_pos hnumber]
  | long h hmore hlast hvalue =>
    obtain ⟨h1, h2, h3⟩ := identifier_byte hcls hform (show 31 < 32 by omega)
    have hread := readBase128_append 0 hmore hlast rest
    rw [hvalue] at hread
    rw [List.cons_append, List.append_assoc, List.singleton_append]
    unfold readIdentifier
    simp only [h1, h2, h3, TagClass.ofBits_bits, id.form_eq_one, ↓reduceIte, hread]
    by_cases hnumber : id.tag.number < wordLimit
    · simp [hnumber, Nat.not_lt.mpr h]
    · simp [hnumber]

/-- What is read as an identifier is one of its forms. -/
theorem isIdentifier_of_read {rest : List UInt8} {id : Identifier} (h : readIdentifier bytes = .ok (id, rest)) :
    id.tag.number < wordLimit ∧ ∃ front, IsIdentifier id front ∧ bytes = front ++ rest := by
  by_cases hsmall : id.tag.number < 31
  · refine ⟨Nat.lt_trans hsmall (by decide), encodeIdentifier id, ?_, readIdentifier_eq_ok h hsmall⟩
    exact isIdentifier_encodeIdentifier id
  · cases bytes with
    | nil => cases h
    | cons b bytes =>
      have hb := b.toNat_lt
      have hbits : (TagClass.ofBits (b.toNat / 64)).bits = b.toNat / 64 := TagClass.bits_ofBits (by omega)
      rw [readIdentifier] at h
      split at h
      · next hlow =>
        cases hread : readBase128 0 bytes with
        | error fault =>
          simp only [hread] at h
          cases h
        | ok result =>
          obtain ⟨hn, digits, last, hmore, hlast, rfl, hvalue⟩ := readBase128_eq_ok hread
          simp only [hread] at h
          split at h
          · cases h
          · next hge =>
            cases h
            have hform : Identifier.form ⟨⟨TagClass.ofBits (b.toNat / 64), result.1⟩, b.toNat / 32 % 2 == 1⟩ =
                b.toNat / 32 % 2 := by
              unfold Identifier.form
              dsimp only
              split
              · next heq => exact (beq_iff_eq.mp heq).symm
              · next hne =>
                rw [beq_iff_eq] at hne
                omega
            refine ⟨hn, _, .long (Nat.not_lt.mp hge) hmore hlast hvalue.symm, ?_⟩
            -- the first byte is made of the class, the form and the sign that digits follow
            have hfirst : 64 * (b.toNat / 64) + 32 * (b.toNat / 32 % 2) + 31 = b.toNat := by omega
            rw [hbits, hform, hfirst, UInt8.ofNat_toNat]
            simp
      · next hlow =>
        cases h
        dsimp only at hsmall
        omega

/-! ### Any element -/

/-- All elements with a tag number that the readers take; the tag that marks the end of contents is none of an
element. -/
def someElement : Language UInt8 :=
  {bytes | ∃ id identifier length content, IsIdentifier id identifier ∧ id.tag ≠ .universal 0 ∧
    id.tag.number < wordLimit ∧ IsLength content.length length ∧ bytes = identifier ++ (length ++ content)}

theorem mem_someElement_of_isElement {form : Bool} {content : List UInt8} (h : IsElement tag form content bytes)
    (hne : tag ≠ .universal 0) (hnumber : tag.number < wordLimit) : bytes ∈ someElement := by
  obtain ⟨length, hlength, rfl⟩ := h
  exact ⟨⟨tag, form⟩, _, length, content, isIdentifier_encodeIdentifier _, hne, hnumber, hlength, rfl⟩

/-- An element with the first tag number that does not fit a word. -/
theorem unreadable_mem_elementsOf :
    [159, 130, 128, 128, 128, 128, 128, 128, 128, 128, 0, 0] ∈ elementsOf (.context (2 ^ 64)) :=
  ⟨false, [], [0], .short (by decide), by decide⟩

open Computability in
theorem mem_kstar_of_mem {language : Language UInt8} (h : bytes ∈ language) : bytes ∈ language∗ :=
  (le_kstar : language ≤ language∗) h

end CertExtensions.Asn1
