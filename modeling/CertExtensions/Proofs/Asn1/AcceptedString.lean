import CertExtensions.Proofs.Asn1.CharacterString

/-!
# Strings that the readers accept

Each of the nine types of character strings reads the contents of texts and no others (`read_eq_found_iff_texts`), and
what is wrong with a content that is not read shows in its bytes (`IsMalformed`). The four types that are taken for
Latin-1 read every content. At any other tag nothing is read, so an optional string is missing there. `anyString_exact`
has these facts together.
-/

namespace CertExtensions.Asn1

open Text BigEndian

variable {content bytes rest : List UInt8} {text : String}

/-! ### Contents that are read -/

private theorem toNat_latin1 (content : List UInt8) :
    (latin1 content).toList.map Char.toNat = content.map UInt8.toNat := by
  rw [latin1, String.toList_ofList, List.map_map]
  exact List.map_congr_left fun b _ => Utf16.toNat_ofNat_byte b

private theorem mem_latin1Contents (content : List UInt8) : content ∈ latin1Contents (latin1 content) := by
  have hchars : (latin1 content).toList = content.map fun b => Char.ofNat b.toNat := String.toList_ofList
  refine ⟨fun c hc => ?_, ?_⟩
  · rw [hchars] at hc
    obtain ⟨b, -, rfl⟩ := List.mem_map.mp hc
    rw [Utf16.toNat_ofNat_byte]
    exact b.toNat_lt
  · rw [characterBytes, hchars, List.map_map]
    refine ((List.map_congr_left fun b _ => ?_).trans (List.map_id content)).symm
    change UInt8.ofNat (Char.ofNat b.toNat).toNat = b
    rw [Utf16.toNat_ofNat_byte, UInt8.ofNat_toNat]

/-- What is known of all bytes is known of the characters that they are read as. -/
private theorem forall_mem_latin1 {p : Char → Prop} (h : ∀ b ∈ content, p (Char.ofNat b.toNat)) :
    ∀ c ∈ (latin1 content).toList, p c := by
  intro c hc
  rw [latin1, String.toList_ofList] at hc
  obtain ⟨b, hb, rfl⟩ := List.mem_map.mp hc
  exact h b hb

private theorem mem_asciiContents_of_decode (h : decodeAscii content = .ok text) : content ∈ asciiContents text := by
  have hascii := ascii_of_decode h
  unfold decodeAscii at h
  split at h
  · cases h
    refine ⟨forall_mem_latin1 fun b hb => ?_, (mem_latin1Contents content).2⟩
    rw [Utf16.toNat_ofNat_byte]
    exact UInt8.lt_iff_toNat_lt.mp (hascii b hb)
  · cases h

/-- The signs of the printable set are those with the bytes that are looked for. -/
private theorem isPrintable_iff (b : UInt8) :
    isPrintable b ↔ (Char.ofNat b.toNat).isAlphanum ∨ Char.ofNat b.toNat ∈ " '()+,-./:=".toList := by
  have hsigns : " '()+,-./:=".toList = [' ', '\'', '(', ')', '+', ',', '-', '.', '/', ':', '='] := by simp
  have hall : ∀ n : Fin 256, isPrintable (UInt8.ofNat n) ↔ (Char.ofNat n).isAlphanum ∨
      Char.ofNat n ∈ [' ', '\'', '(', ')', '+', ',', '-', '.', '/', ':', '='] := by decide +kernel
  have hb := hall ⟨b.toNat, b.toNat_lt⟩
  rw [hsigns]
  simpa using hb

private theorem mem_printableContents_of_decode (h : decodePrintable content = .ok text) :
    content ∈ printableContents text := by
  unfold decodePrintable at h
  split at h
  · next hall =>
    cases h
    refine ⟨forall_mem_latin1 fun b hb => ?_, (mem_latin1Contents content).2⟩
    exact (isPrintable_iff b).mp (List.all_eq_true.mp hall b hb)
  · cases h

theorem decode?_eq_some_iff : Utf8.decode? content = some text ↔ content = text.toUTF8.data.toList := by
  unfold Utf8.decode? String.fromUTF8?
  constructor
  · intro h
    split at h
    · cases h
      rfl
    · cases h
  · rintro rfl
    exact dif_pos text.isValidUTF8

private theorem mem_utf8Contents_of_decode (h : decodeUtf8 content = .ok text) : content ∈ utf8Contents text := by
  unfold decodeUtf8 at h
  cases hdecode : Utf8.decode? content with
  | none => simp [hdecode] at h
  | some found =>
    simp only [hdecode, Except.ok.injEq] at h
    subst h
    exact decode?_eq_some_iff.mp hdecode

private theorem mem_utf16Contents_of_decode (h : decodeUtf16 content = .ok text) : content ∈ utf16Contents text := by
  unfold decodeUtf16 at h
  split at h
  · cases h
  · next heven =>
    cases hdecode : Utf16.decode? (Utf16.unitsOfBytes content) with
    | none => simp [hdecode] at h
    | some chars =>
      simp only [hdecode, Except.ok.injEq] at h
      subst h
      have hunits := Utf16.units_of_decode? (Utf16.unitsOfBytes_lt content) hdecode
      have hbytes := (Utf16.unitBytes_unitsOfBytes (show content.length = 2 * (content.length / 2) by omega)).1
      change content = _
      rw [String.toList_ofList, hunits, hbytes]

private theorem scalar?_eq_some {n : Nat} {c : Char} (h : Utf16.scalar? n = some c) : c.toNat = n := by
  unfold Utf16.scalar? at h
  split at h
  · next hvalid =>
    cases h
    exact Utf16.toNat_ofNat_of_isValidChar hvalid
  · cases h

private theorem flatMap_of_decodeUtf32Chars {chars : List Char} (h : decodeUtf32Chars content = some chars) :
    content = chars.flatMap fun c => fixed 4 c.toNat := by
  fun_induction decodeUtf32Chars content generalizing chars with
  | case1 =>
    cases h
    rfl
  | case2 a b c d rest ih =>
    obtain ⟨char, hchar, h⟩ := Option.bind_eq_some_iff.mp h
    obtain ⟨more, hmore, h⟩ := Option.bind_eq_some_iff.mp h
    cases h
    have hword : fixed 4 (value [a, b, c, d]) = [a, b, c, d] := fixed_value [a, b, c, d]
    rw [List.flatMap_cons, scalar?_eq_some hchar, hword, ← ih hmore]
    rfl
  | case3 => cases h

private theorem mem_utf32Contents_of_decode (h : decodeUtf32 content = .ok text) : content ∈ utf32Contents text := by
  unfold decodeUtf32 at h
  cases hdecode : decodeUtf32Chars content with
  | none => simp [hdecode] at h
  | some chars =>
    simp only [hdecode, Except.ok.injEq] at h
    subst h
    change content = _
    rw [String.toList_ofList]
    exact flatMap_of_decodeUtf32Chars hdecode

/-! ### Contents that are refused -/

/-- Whether four of the bytes, behind a multiple of four, form a number that no character has. -/
def HasNonCharacter (content : List UInt8) : Prop :=
  ∃ front word back, content = front ++ (word ++ back) ∧ front.length % 4 = 0 ∧ word.length = 4 ∧
    ¬(value word).isValidChar

/-- Whether the content is none of a string of the tag. -/
def IsMalformed (tag : Tag) (content : List UInt8) : Prop :=
  if tag = .utf8String then ¬ByteArray.IsValidUTF8 ⟨content.toArray⟩
  else if tag = .bmpString then
    content.length % 2 ≠ 0 ∨ Utf16.HasLoneSurrogate (Utf16.unitsOfBytes content)
  else if tag = .universalString then content.length % 4 ≠ 0 ∨ HasNonCharacter content
  else if tag = .ia5String then ∃ b ∈ content, 128 ≤ b
  else if tag = .printableString then
    ∃ b ∈ content, ¬((Char.ofNat b.toNat).isAlphanum ∨ Char.ofNat b.toNat ∈ " '()+,-./:=".toList)
  else False

/-- Whether the reader refuses the malformed contents and no others. -/
def RefusesJust (decode : List UInt8 → Except Fault String) (malformed : List UInt8 → Prop) : Prop :=
  ∀ content, (∃ text, decode content = .ok text) ∧ ¬malformed content ∨
    decode content = .error .invalid ∧ malformed content

private theorem refusesJust_ite (p : UInt8 → Bool) :
    RefusesJust (fun content => if content.all p then .ok (latin1 content) else .error .invalid)
      fun content => ∃ b ∈ content, p b = false := by
  intro content
  by_cases hall : content.all p
  · refine .inl ⟨⟨latin1 content, if_pos hall⟩, ?_⟩
    rintro ⟨b, hb, hfalse⟩
    rw [List.all_eq_true.mp hall b hb] at hfalse
    cases hfalse
  · refine .inr ⟨if_neg hall, ?_⟩
    simpa using hall

private theorem refusesJust_ia5 : RefusesJust decodeAscii (IsMalformed .ia5String) := by
  intro content
  have h := refusesJust_ite (· < 128) content
  simp only [decide_eq_false_iff_not, UInt8.not_lt] at h
  exact h

private theorem refusesJust_printable : RefusesJust decodePrintable (IsMalformed .printableString) := by
  intro content
  have h := refusesJust_ite isPrintable content
  simp only [← Bool.not_eq_true, isPrintable_iff] at h
  exact h

private theorem refusesJust_utf8 : RefusesJust decodeUtf8 (IsMalformed .utf8String) := by
  intro content
  change _ ∧ ¬¬ByteArray.IsValidUTF8 ⟨content.toArray⟩ ∨ _ ∧ ¬ByteArray.IsValidUTF8 ⟨content.toArray⟩
  unfold decodeUtf8 Utf8.decode? String.fromUTF8?
  by_cases hvalid : ByteArray.IsValidUTF8 ⟨content.toArray⟩
  · simp [hvalid]
  · simp [hvalid]

private theorem refusesJust_utf16 : RefusesJust decodeUtf16 (IsMalformed .bmpString) := by
  intro content
  change _ ∧ ¬(content.length % 2 ≠ 0 ∨ Utf16.HasLoneSurrogate (Utf16.unitsOfBytes content)) ∨
    _ ∧ (content.length % 2 ≠ 0 ∨ Utf16.HasLoneSurrogate (Utf16.unitsOfBytes content))
  unfold decodeUtf16
  by_cases hodd : content.length % 2 ≠ 0
  · simp [hodd]
  · rw [if_neg hodd, ← Utf16.decode?_eq_none_iff]
    cases Utf16.decode? (Utf16.unitsOfBytes content) <;> simp [hodd]

private theorem not_hasNonCharacter_of_length_lt (h : content.length < 4) : ¬HasNonCharacter content := by
  rintro ⟨front, word, back, rfl, -, hword, -⟩
  simp only [List.length_append] at h
  omega

private theorem hasNonCharacter_cons (a b c d : UInt8) (rest : List UInt8) :
    HasNonCharacter (a :: b :: c :: d :: rest) ↔ ¬(value [a, b, c, d]).isValidChar ∨ HasNonCharacter rest := by
  constructor
  · rintro ⟨front, word, back, h, hfront, hword, hvalue⟩
    match front, word, h, hfront, hword with
    | [], [a', b', c', d'], h, _, _ =>
      simp only [List.nil_append, List.cons_append, List.cons.injEq] at h
      obtain ⟨rfl, rfl, rfl, rfl, -⟩ := h
      exact .inl hvalue
    | _ :: _ :: _ :: _ :: front, word, h, hfront, hword =>
      simp only [List.cons_append, List.cons.injEq] at h
      obtain ⟨-, -, -, -, rfl⟩ := h
      simp only [List.length_cons] at hfront
      exact .inr ⟨front, word, back, rfl, by omega, hword, hvalue⟩
  · rintro (hvalue | ⟨front, word, back, rfl, hfront, hword, hvalue⟩)
    · exact ⟨[], [a, b, c, d], rest, rfl, rfl, rfl, hvalue⟩
    · refine ⟨a :: b :: c :: d :: front, word, back, rfl, ?_, hword, hvalue⟩
      simp only [List.length_cons]
      omega

private theorem scalar?_eq_none_iff (n : Nat) : Utf16.scalar? n = none ↔ ¬n.isValidChar := by
  unfold Utf16.scalar?
  by_cases hvalid : n.isValidChar <;> simp [hvalid]

private theorem decodeUtf32Chars_eq_none_iff (content : List UInt8) :
    decodeUtf32Chars content = none ↔ content.length % 4 ≠ 0 ∨ HasNonCharacter content := by
  fun_induction decodeUtf32Chars content with
  | case1 => simp [not_hasNonCharacter_of_length_lt]
  | case2 a b c d rest ih =>
    rw [hasNonCharacter_cons, ← scalar?_eq_none_iff]
    have hlength : (a :: b :: c :: d :: rest).length % 4 = rest.length % 4 := by
      simp only [List.length_cons]
      omega
    rw [hlength]
    cases hchar : Utf16.scalar? (value [a, b, c, d]) with
    | none => simp
    | some char =>
      cases hmore : decodeUtf32Chars rest with
      | none => simpa [hmore] using ih
      | some chars => simpa [hmore] using ih
  | case3 content hnil hlong =>
    rcases content with _ | ⟨a, _ | ⟨b, _ | ⟨c, _ | ⟨d, rest⟩⟩⟩⟩
    · exact absurd rfl hnil
    · simp
    · simp
    · simp
    · exact absurd rfl (hlong a b c d rest)

private theorem refusesJust_utf32 : RefusesJust decodeUtf32 (IsMalformed .universalString) := by
  intro content
  change _ ∧ ¬(content.length % 4 ≠ 0 ∨ HasNonCharacter content) ∨
    _ ∧ (content.length % 4 ≠ 0 ∨ HasNonCharacter content)
  unfold decodeUtf32
  rw [← decodeUtf32Chars_eq_none_iff]
  cases decodeUtf32Chars content <;> simp

/-! ### Types -/

variable {tag : Tag} {decode : List UInt8 → Except Fault String}

/-- The strings of the nine types, in the order in which the types are tried. -/
def textForms (text : String) : List (Language UInt8) :=
  [leaf .utf8String (utf8Contents text), leaf .printableString (printableContents text),
    leaf .ia5String (asciiContents text), leaf .bmpString (utf16Contents text),
    leaf .universalString (utf32Contents text), leaf .teletexString (latin1Contents text),
    leaf .numericString (latin1Contents text), leaf .visibleString (latin1Contents text),
    leaf .generalString (latin1Contents text)]

private theorem mem_texts_of_form {form : Language UInt8} (hform : form ∈ textForms text) (hbytes : bytes ∈ form) :
    bytes ∈ texts text := by
  simp only [textForms, List.mem_cons, List.not_mem_nil, or_false] at hform
  simp only [texts, directoryTexts, Language.mem_add]
  rcases hform with rfl | rfl | rfl | rfl | rfl | rfl | rfl | rfl | rfl
  all_goals simp only [hbytes, true_or, or_true]

private theorem leaf_of_read {contents : Language UInt8} (hnumber : tag.number < 31)
    (h : ∀ content, decode content = .ok text → content ∈ contents)
    (hread : (TaggedType.ofContent tag decode).schema.read bytes = .found text rest) :
    ∃ front ∈ leaf tag contents, front.length < wordLimit ∧ bytes = front ++ rest := by
  obtain ⟨front, hfront, hlt, rfl⟩ := (TaggedType.read_eq_found_iff hnumber).mp hread
  obtain ⟨content, helement, hdecode⟩ := TaggedType.isEncoding_ofContent_iff.mp hfront
  exact ⟨front, ⟨content, h content hdecode, helement⟩, hlt, rfl⟩

private theorem leaf_of_read_latin1 (hnumber : tag.number < 31)
    (hread : (latin1String tag).schema.read bytes = .found text rest) :
    ∃ front ∈ leaf tag (latin1Contents text), front.length < wordLimit ∧ bytes = front ++ rest := by
  refine leaf_of_read hnumber (fun content hdecode => ?_) hread
  rw [← Except.ok.inj hdecode]
  exact mem_latin1Contents content

/-- A string is found just in front of the encodings of its text. -/
theorem read_eq_found_iff_texts :
    anyString.read bytes = .found text rest ↔
      ∃ front ∈ texts text, front.length < wordLimit ∧ bytes = front ++ rest := by
  constructor
  · intro h
    obtain ⟨t, ht, hread⟩ := Schema.found_of_read_choice h
    have hforms : List.Forall₂ (fun t form => t.schema.read bytes = .found text rest →
        ∃ front ∈ form, front.length < wordLimit ∧ bytes = front ++ rest)
        [utf8String, printableString, ia5String, bmpString, universalString, latin1String .teletexString,
          latin1String .numericString, latin1String .visibleString, latin1String .generalString] (textForms text) :=
      .cons (leaf_of_read (by decide) fun _ => mem_utf8Contents_of_decode) <|
      .cons (leaf_of_read (by decide) fun _ => mem_printableContents_of_decode) <|
      .cons (leaf_of_read (by decide) fun _ => mem_asciiContents_of_decode) <|
      .cons (leaf_of_read (by decide) fun _ => mem_utf16Contents_of_decode) <|
      .cons (leaf_of_read (by decide) fun _ => mem_utf32Contents_of_decode) <|
      .cons (leaf_of_read_latin1 (by decide)) <| .cons (leaf_of_read_latin1 (by decide)) <|
      .cons (leaf_of_read_latin1 (by decide)) <| .cons (leaf_of_read_latin1 (by decide)) .nil
    obtain ⟨form, hform, hfinds⟩ := (Reader.mem_of_forall₂ hforms).1 t ht
    obtain ⟨front, hfront, hbytes⟩ := hfinds hread
    exact ⟨front, mem_texts_of_form hform hfront, hbytes⟩
  · rintro ⟨front, hfront, hlt, rfl⟩
    exact finds_anyString hfront hlt rest

/-- Whether a string is found or refused is told by its content. -/
private theorem read_string (htag : tag ∈ stringTags) (h : IsElement tag false content bytes)
    (hlt : bytes.length < wordLimit) (rest : List UInt8) :
    (∃ text, anyString.read (bytes ++ rest) = .found text rest) ∧ ¬IsMalformed tag content ∨
      anyString.read (bytes ++ rest) = .failed .invalid ∧ IsMalformed tag content := by
  have hrefuses : ∀ {decode}, anyString.decode? tag = some (TaggedType.ofContent tag decode).decode →
      tag.number < wordLimit → RefusesJust decode (IsMalformed tag) →
      (∃ text, anyString.read (bytes ++ rest) = .found text rest) ∧ ¬IsMalformed tag content ∨
        anyString.read (bytes ++ rest) = .failed .invalid ∧ IsMalformed tag content := by
    intro decode hdecode hnumber hrefuses
    have hread := Schema.read_of_isElement hdecode hnumber h hlt rest
    have hcontent : (TaggedType.ofContent tag decode).decode ⟨tag, false, content, bytes⟩ = decode content := rfl
    rw [hcontent] at hread
    rw [hread]
    rcases hrefuses content with ⟨⟨text, htext⟩, hwell⟩ | ⟨hfault, hmalformed⟩
    · rw [htext]
      exact .inl ⟨⟨text, rfl⟩, hwell⟩
    · rw [hfault]
      exact .inr ⟨rfl, hmalformed⟩
  have hlatin : ∀ {other : List UInt8 → Prop}, (∀ content, ¬other content) →
      RefusesJust (fun content => .ok (latin1 content)) other :=
    fun hother content => .inl ⟨⟨latin1 content, rfl⟩, hother content⟩
  simp only [stringTags, List.mem_cons, List.not_mem_nil, or_false] at htag
  rcases htag with rfl | rfl | rfl | rfl | rfl | rfl | rfl | rfl | rfl
  · exact hrefuses rfl (by decide) refusesJust_utf8
  · exact hrefuses rfl (by decide) refusesJust_printable
  · exact hrefuses rfl (by decide) refusesJust_ia5
  · exact hrefuses rfl (by decide) refusesJust_utf16
  · exact hrefuses rfl (by decide) refusesJust_utf32
  · exact hrefuses rfl (by decide) (hlatin fun _ => id)
  · exact hrefuses rfl (by decide) (hlatin fun _ => id)
  · exact hrefuses rfl (by decide) (hlatin fun _ => id)
  · exact hrefuses rfl (by decide) (hlatin fun _ => id)

/-- The tags of the four types that are taken for Latin-1. -/
def latin1Tags : List Tag :=
  [.teletexString, .numericString, .visibleString, .generalString]

private theorem read_latin1 (htag : tag ∈ latin1Tags) (h : IsElement tag false content bytes)
    (hlt : bytes.length < wordLimit)
    (rest : List UInt8) : anyString.read (bytes ++ rest) = .found (latin1 content) rest := by
  have hread : ∀ {tag}, IsElement tag false content bytes → tag.number < wordLimit →
      anyString.decode? tag = some (latin1String tag).decode →
      anyString.read (bytes ++ rest) = .found (latin1 content) rest :=
    fun h hnumber hdecode => Schema.read_of_isElement hdecode hnumber h hlt rest
  simp only [latin1Tags, List.mem_cons, List.not_mem_nil, or_false] at htag
  rcases htag with rfl | rfl | rfl | rfl
  · exact hread h (by decide) rfl
  · exact hread h (by decide) rfl
  · exact hread h (by decide) rfl
  · exact hread h (by decide) rfl

private theorem Schema.decode?_choice_eq_none {α : Type} {types : List (TaggedType α)} (h : tag ∉ types.map (·.tag)) :
    (choice types).decode? tag = none := by
  have hfind : types.find? (·.tag = tag) = none := by
    rw [List.find?_eq_none]
    intro t ht heq
    exact h (List.mem_map.mpr ⟨t, ht, of_decide_eq_true heq⟩)
  simp only [choice, hfind, Option.map_none]

/-- At an identifier with another tag there is no string, whatever follows it. -/
private theorem read_otherTag {id : Identifier} {identifier : List UInt8} (hid : IsIdentifier id identifier)
    (htag : id.tag ∉ stringTags) (rest : List UInt8) :
    ∃ fault, anyString.read (identifier ++ rest) = .absent fault := by
  have hread := hid.read rest
  have hahead : anyString.looksAhead = true := rfl
  unfold Schema.read
  by_cases hnumber : id.tag.number < wordLimit
  · rw [hread, if_pos hnumber]
    have hnone : anyString.decode? id.tag = none := Schema.decode?_choice_eq_none htag
    exact ⟨.invalid, by simp only [hnone]⟩
  · rw [hread, if_neg hnumber]
    exact ⟨.integerOverflow, by simp only [hahead, Bool.true_or, ↓reduceIte]⟩

/-- Strings of the nine types are read just where they are encoded. Texts are read back from UTF-8, UTF-16 and UTF-32;
contents that are malformed are refused, and no others; the bytes of the four types without a rule are Latin-1. Other
tags are refused with nothing read, so that an optional string is missing there. -/
theorem anyString_exact :
    (∀ bytes text rest, anyString.read bytes = .found text rest ↔
      ∃ front ∈ texts text, front.length < wordLimit ∧ bytes = front ++ rest) ∧
    (∀ (text : String) bytes, bytes ∈ leaf .utf8String {text.toUTF8.data.toList} +
        leaf .bmpString {Utf16.unitBytes (Utf16.units text.toList)} +
        leaf .universalString {text.toList.flatMap fun c => fixed 4 c.toNat} →
      bytes.length < wordLimit → anyString.whole bytes = .ok text) ∧
    (∀ tag ∈ stringTags, ∀ content bytes, IsElement tag false content bytes → bytes.length < wordLimit → ∀ rest,
      (∃ text, anyString.read (bytes ++ rest) = .found text rest) ∧ ¬IsMalformed tag content ∨
        anyString.read (bytes ++ rest) = .failed .invalid ∧ IsMalformed tag content) ∧
    (∀ tag ∈ latin1Tags, ∀ content bytes, IsElement tag false content bytes → bytes.length < wordLimit → ∀ rest,
      ∃ text, anyString.read (bytes ++ rest) = .found text rest ∧
        text.toList.map Char.toNat = content.map UInt8.toNat) ∧
    ∀ id identifier, IsIdentifier id identifier → id.tag ∉ stringTags → ∀ rest,
      (∃ fault, anyString.read (identifier ++ rest) = .absent fault ∧
        anyString.required (identifier ++ rest) = .error fault) ∧
      anyString.optional (identifier ++ rest) = .ok (none, identifier ++ rest) := by
  refine ⟨fun bytes text rest => read_eq_found_iff_texts, fun text bytes hbytes hlt => ?_,
    fun tag htag content bytes h hlt rest => read_string htag h hlt rest,
    fun tag htag content bytes h hlt rest => ⟨_, read_latin1 htag h hlt rest, toNat_latin1 content⟩,
    fun id identifier hid htag rest => ?_⟩
  · refine finds_anyString.whole (.inl (.inl (.inl (.inl (.inl (.inl ?_)))))) hlt
    exact hbytes
  · obtain ⟨fault, habsent⟩ := read_otherTag hid htag rest
    refine ⟨⟨fault, habsent, ?_⟩, ?_⟩
    · rw [Schema.required, habsent]
    · rw [Schema.optional, habsent]

end CertExtensions.Asn1
