import CertExtensions.Asn1.CharacterString
import CertExtensions.Proofs.Asn1.Shape
import CertExtensions.Proofs.Utf16

/-!
# Contents of character strings

A text has a content for each type of character strings that has its characters. Whichever of the nine types a text is
encoded in, `anyString` reads it back (`finds_anyString`), and each type alone reads back the texts in it. Elements with
other tags are taken for no strings (`findsOnly_anyString`).
-/

namespace CertExtensions.Asn1

open Text BigEndian

/-! ### Contents -/

/-- One byte for each character. -/
def characterBytes (text : String) : List UInt8 :=
  text.toList.map fun c => UInt8.ofNat c.toNat

def asciiContents (text : String) : Language UInt8 :=
  {content | (∀ c ∈ text.toList, c.toNat < 128) ∧ content = characterBytes text}

def latin1Contents (text : String) : Language UInt8 :=
  {content | (∀ c ∈ text.toList, c.toNat < 256) ∧ content = characterBytes text}

/-- Texts of letters, digits, the blank and eleven signs. -/
def printableContents (text : String) : Language UInt8 :=
  {content | (∀ c ∈ text.toList, c.isAlphanum ∨ c ∈ " '()+,-./:=".toList) ∧ content = characterBytes text}

def utf8Contents (text : String) : Language UInt8 :=
  {text.toUTF8.data.toList}

def utf16Contents (text : String) : Language UInt8 :=
  {Utf16.unitBytes (Utf16.units text.toList)}

def utf32Contents (text : String) : Language UInt8 :=
  {text.toList.flatMap fun c => fixed 4 c.toNat}

/-- The strings that directories use: the type with all characters in each of three encodings, and two narrow ones. -/
def directoryTexts (text : String) : Language UInt8 :=
  leaf .utf8String (utf8Contents text) + leaf .bmpString (utf16Contents text) +
    leaf .universalString (utf32Contents text) + leaf .printableString (printableContents text) +
    leaf .teletexString (latin1Contents text)

/-- The strings of all nine types. -/
def texts (text : String) : Language UInt8 :=
  directoryTexts text + leaf .ia5String (asciiContents text) + leaf .numericString (latin1Contents text) +
    leaf .visibleString (latin1Contents text) + leaf .generalString (latin1Contents text)

variable {text : String} {content : List UInt8}

/-- The element of the narrowest type that has the first 128 characters. -/
theorem make_mem_texts (h : ∀ c ∈ text.toList, c.toNat < 128) (hlt : (characterBytes text).length < wordLimit) :
    (Element.make .ia5String false (characterBytes text)).encoding ∈ texts text :=
  have hcontent : characterBytes text ∈ asciiContents text := ⟨h, rfl⟩
  .inl (.inl (.inl (.inr (make_mem_leaf hcontent hlt .ia5String))))

/-! ### Reading contents -/

private theorem latin1_characterBytes (h : ∀ c ∈ text.toList, c.toNat < 256) : latin1 (characterBytes text) = text := by
  have hchars : (characterBytes text).map (fun b => Char.ofNat b.toNat) = text.toList := by
    rw [characterBytes, List.map_map]
    refine (List.map_congr_left fun c hc => ?_).trans (List.map_id _)
    change Char.ofNat (UInt8.ofNat c.toNat).toNat = c
    rw [toNat_ofNat_of_lt (h c hc), Char.ofNat_toNat]
  rw [latin1, hchars, String.ofList_toList]

theorem decodeAscii_of_mem (h : content ∈ asciiContents text) : decodeAscii content = .ok text := by
  obtain ⟨hlt, rfl⟩ := h
  have hall : (characterBytes text).all (· < 128) := by
    rw [List.all_eq_true]
    intro b hb
    obtain ⟨c, hc, rfl⟩ := List.mem_map.mp hb
    have hc := hlt c hc
    exact decide_eq_true ((ofNat_lt_half_iff (by omega)).mpr hc)
  rw [decodeAscii, if_pos hall, latin1_characterBytes fun c hc => Nat.lt_trans (hlt c hc) (by decide)]

private theorem toNat_lt_of_isAlphanum {c : Char} (h : c.isAlphanum) : c.toNat < 128 := by
  delta Char.isAlphanum Char.isAlpha Char.isUpper Char.isLower Char.isDigit at h
  simp only [Bool.or_eq_true, Bool.and_eq_true, decide_eq_true_eq, UInt32.le_iff_toNat_le] at h
  change ((65 ≤ c.toNat ∧ c.toNat ≤ 90) ∨ (97 ≤ c.toNat ∧ c.toNat ≤ 122)) ∨ (48 ≤ c.toNat ∧ c.toNat ≤ 57) at h
  omega

private theorem decodePrintable_of_mem (h : content ∈ printableContents text) : decodePrintable content = .ok text := by
  obtain ⟨hchars, rfl⟩ := h
  have hlt : ∀ c ∈ text.toList, c.toNat < 256 := by
    intro c hc
    rcases hchars c hc with halnum | hsign
    · exact Nat.lt_trans (toNat_lt_of_isAlphanum halnum) (by decide)
    · have hsigns : ∀ c ∈ " '()+,-./:=".toList, c.toNat < 256 := by simp
      exact hsigns c hsign
  have hall : (characterBytes text).all isPrintable := by
    rw [List.all_eq_true]
    intro b hb
    obtain ⟨c, hc, rfl⟩ := List.mem_map.mp hb
    rcases hchars c hc with halnum | hsign
    · unfold isPrintable
      simp [toNat_ofNat_of_lt (hlt c hc), halnum]
    · have hsigns : ∀ c ∈ " '()+,-./:=".toList, isPrintable (UInt8.ofNat c.toNat) := by simp [isPrintable]
      exact hsigns c hsign
  rw [decodePrintable, if_pos hall, latin1_characterBytes hlt]

private theorem decodeUtf8_of_mem (h : content ∈ utf8Contents text) : decodeUtf8 content = .ok text := by
  obtain rfl := h
  have hdecode : Utf8.decode? text.toUTF8.data.toList = some text := by
    unfold Utf8.decode?
    rw [Array.toArray_toList]
    exact dif_pos text.isValidUTF8
  rw [decodeUtf8, hdecode]

private theorem decodeUtf16_of_mem (h : content ∈ utf16Contents text) : decodeUtf16 content = .ok text := by
  obtain rfl := h
  have hlength := Utf16.length_unitBytes (Utf16.units text.toList)
  rw [decodeUtf16, if_neg (by omega), Utf16.unitsOfBytes_unitBytes fun _ hunit => Utf16.units_lt hunit,
    Utf16.decode?_units]
  simp only [String.ofList_toList]

private theorem decodeUtf32Chars_flatMap (chars : List Char) :
    decodeUtf32Chars (chars.flatMap fun c => fixed 4 c.toNat) = some chars := by
  induction chars with
  | nil => rfl
  | cons c chars ih =>
    have hc := Utf16.toNat_bounds c
    have hvalue : value (fixed 4 c.toNat) = c.toNat := value_fixed_of_lt (by omega)
    have hscalar : Utf16.scalar? c.toNat = some c := by
      have hvalid : c.toNat.isValidChar := c.valid
      rw [Utf16.scalar?, if_pos hvalid, Char.ofNat_toNat]
    obtain ⟨a, b, d, e, hbytes⟩ : ∃ a b d e, fixed 4 c.toNat = [a, b, d, e] := ⟨_, _, _, _, rfl⟩
    rw [hbytes] at hvalue
    simp only [List.flatMap_cons, hbytes, List.cons_append, List.nil_append, decodeUtf32Chars, hvalue, hscalar, ih,
      Option.bind_eq_bind, Option.bind_some]

private theorem decodeUtf32_of_mem (h : content ∈ utf32Contents text) : decodeUtf32 content = .ok text := by
  obtain rfl := h
  rw [decodeUtf32, decodeUtf32Chars_flatMap]
  simp only [String.ofList_toList]

/-! ### Types -/

theorem finds_ia5String : ia5String.schema.Finds fun text => leaf .ia5String (asciiContents text) :=
  TaggedType.finds_ofContent (by decide) fun _ _ hcontent _ => decodeAscii_of_mem hcontent

theorem finds_printableString :
    printableString.schema.Finds fun text => leaf .printableString (printableContents text) :=
  TaggedType.finds_ofContent (by decide) fun _ _ hcontent _ => decodePrintable_of_mem hcontent

private theorem finds_utf8String : utf8String.schema.Finds fun text => leaf .utf8String (utf8Contents text) :=
  TaggedType.finds_ofContent (by decide) fun _ _ hcontent _ => decodeUtf8_of_mem hcontent

private theorem finds_bmpString : bmpString.schema.Finds fun text => leaf .bmpString (utf16Contents text) :=
  TaggedType.finds_ofContent (by decide) fun _ _ hcontent _ => decodeUtf16_of_mem hcontent

private theorem finds_universalString :
    universalString.schema.Finds fun text => leaf .universalString (utf32Contents text) :=
  TaggedType.finds_ofContent (by decide) fun _ _ hcontent _ => decodeUtf32_of_mem hcontent

private theorem finds_latin1String {tag : Tag} (hnumber : tag.number < wordLimit) :
    (latin1String tag).schema.Finds fun text => leaf tag (latin1Contents text) := by
  refine TaggedType.finds_ofContent hnumber fun text content hcontent _ => ?_
  obtain ⟨hlt, rfl⟩ := hcontent
  rw [latin1_characterBytes hlt]

/-- A text is read in whichever type it is encoded. -/
theorem finds_anyString : anyString.Finds texts := by
  intro text front hfront hlt rest
  rcases hfront with ((((((((h | h) | h) | h) | h) | h) | h) | h) | h)
  · exact Schema.read_choice_of_found rfl (finds_utf8String h hlt rest)
  · exact Schema.read_choice_of_found rfl (finds_bmpString h hlt rest)
  · exact Schema.read_choice_of_found rfl (finds_universalString h hlt rest)
  · exact Schema.read_choice_of_found rfl (finds_printableString h hlt rest)
  · exact Schema.read_choice_of_found rfl (finds_latin1String (by decide) h hlt rest)
  · exact Schema.read_choice_of_found rfl (finds_ia5String h hlt rest)
  · exact Schema.read_choice_of_found rfl (finds_latin1String (by decide) h hlt rest)
  · exact Schema.read_choice_of_found rfl (finds_latin1String (by decide) h hlt rest)
  · exact Schema.read_choice_of_found rfl (finds_latin1String (by decide) h hlt rest)

theorem finds_directoryTexts : anyString.Finds directoryTexts :=
  fun _ _ hfront => finds_anyString (.inl (.inl (.inl (.inl hfront))))

/-- The strings of directories are passed over where none of their types is read, as are no strings at all. -/
theorem passes_directoryTexts {α : Type} {s : Schema α} {text? : Option String} {front : List UInt8}
    (hs : ∀ tag ∈ [Tag.utf8String, .bmpString, .universalString, .printableString, .teletexString],
      s.decode? tag = none)
    (hfront : front ∈ optionally directoryTexts text?) (hlt : front.length < wordLimit) : s.Passes front := by
  cases text? with
  | none =>
    obtain rfl := (Language.mem_one front).mp hfront
    exact Schema.passes_nil
  | some text =>
    rcases hfront with (((h | h) | h) | h) | h
    · exact finds_utf8String.passes_last (TaggedType.apart (hs _ (by decide))) h hlt
    · exact finds_bmpString.passes_last (TaggedType.apart (hs _ (by decide))) h hlt
    · exact finds_universalString.passes_last (TaggedType.apart (hs _ (by decide))) h hlt
    · exact finds_printableString.passes_last (TaggedType.apart (hs _ (by decide))) h hlt
    · exact (finds_latin1String (show Tag.teletexString.number < wordLimit by decide)).passes_last
        (TaggedType.apart (hs _ (by decide))) h hlt

/-! ### What is taken for a string -/

/-- The tags of the nine types. -/
def stringTags : List Tag :=
  [.utf8String, .printableString, .ia5String, .bmpString, .universalString, .teletexString, .numericString,
    .visibleString, .generalString]

/-- Bytes of ASCII characters. -/
def asciiShape : Language UInt8 := {content | ∀ b ∈ content, b < 128}

/-- Strings of any of the nine types. -/
def textShape : Language UInt8 := ⨆ tag ∈ stringTags, leaf tag ⊤

theorem ascii_of_decode (h : decodeAscii content = .ok text) : content ∈ asciiShape := by
  rw [decodeAscii] at h
  split at h
  · next hall =>
    intro b hb
    exact of_decide_eq_true (List.all_eq_true.mp hall b hb)
  · cases h

theorem findsOnly_ia5String : ia5String.schema.FindsOnly (leaf .ia5String asciiShape) :=
  TaggedType.findsOnly_ofContent (show Tag.ia5String.number < 31 by decide) fun _ _ hdecode => ascii_of_decode hdecode

theorem findsOnly_printableString : printableString.schema.FindsOnly (leaf .printableString ⊤) :=
  TaggedType.findsOnly_ofContent (show Tag.printableString.number < 31 by decide) fun _ _ _ => trivial

theorem findsOnly_anyString : anyString.FindsOnly textShape := by
  refine Schema.findsOnly_choice fun t ht => ?_
  have hcontent : ∀ {tag : Tag} {decode : List UInt8 → Except Fault String}, tag.number < 31 → tag ∈ stringTags →
      (TaggedType.ofContent tag decode).schema.FindsOnly textShape := by
    intro tag decode hnumber hmem
    refine (TaggedType.findsOnly_ofContent hnumber fun _ _ _ => trivial).mono ?_
    exact le_iSup₂_of_le tag hmem le_rfl
  simp only [List.mem_cons, List.not_mem_nil, or_false] at ht
  rcases ht with rfl | rfl | rfl | rfl | rfl | rfl | rfl | rfl | rfl
  all_goals exact hcontent (by decide) (by decide)

end CertExtensions.Asn1
