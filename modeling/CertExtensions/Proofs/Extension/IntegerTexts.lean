import CertExtensions.Proofs.Asn1.Integer
import CertExtensions.Proofs.Extension.Rendering
import CertExtensions.Proofs.Hex

/-!
# Texts of integers

The number of a revocation list and the serial number in an authority key identifier are integers of any size, which
are read with their sign and shown as the unsigned number that their content forms. So a text tells the integer up to
this: a negative one is shown as the positive one that has the same bytes behind a zero (`Extension.integer_shown_iff`).
-/

open Computability

namespace CertExtensions

open Asn1 Outline

/-! ### Reading -/

/-- The serial number of an authority key identifier is the last of its elements. -/
private theorem AuthorityKeyIdentifier.serial_of_whole {octets content : List UInt8} {id : AuthorityKeyIdentifier}
    (h : taggedType.whole octets = .ok id) (hserial : id.serial? = some content) :
    checkInteger content = .ok () ∧ octets ∈ node .sequence (⊤ * leaf (.context 2) {content}) := by
  obtain ⟨hencoding, -⟩ := (TaggedType.whole_eq_ok_iff (show Tag.sequence.number < 31 by decide)).mp h
  obtain ⟨elements, helement, hfields⟩ := TaggedType.isEncoding_ofComponents_iff.mp hencoding
  obtain ⟨key?, behindKey, hkey, hfields⟩ := Reader.step_of_bind_eq_ok (Fields.exhaust_eq_ok_iff.mp hfields)
  obtain ⟨issuer?, behindIssuer, hissuer, hfields⟩ := Reader.step_of_bind_eq_ok hfields
  obtain ⟨serial?, behindSerial, hread, hfields⟩ := Reader.step_of_bind_eq_ok hfields
  cases hfields
  obtain rfl : serial? = some content := hserial
  obtain ⟨first, rfl⟩ := TaggedType.front_of_optional (by decide) hkey
  obtain ⟨second, rfl⟩ := TaggedType.front_of_optional (by decide) hissuer
  rcases TaggedType.optional_eq_ok (by decide) hread with ⟨hnone, -⟩ | ⟨found, serial, hsome, hencoding, rfl⟩
  · cases hnone
  · cases hsome
    obtain ⟨hcheck, hleaf⟩ := isEncoding_integerOctets_iff.mp hencoding
    refine ⟨hcheck, mem_node.mpr ⟨_, ?_, helement⟩⟩
    rw [← List.append_assoc, List.append_nil]
    exact Language.append_mem_mul trivial (mem_leaf.mpr ⟨content, rfl, hleaf⟩)

/-! ### Texts -/

/-- The line of a serial number can be told from all other lines of an authority key identifier. -/
private theorem AuthorityKeyIdentifier.serial_of_mem_outline {id : AuthorityKeyIdentifier} {shown : String}
    (h : ⟨0, .plain ("Certificate Serial Number: " ++ shown)⟩ ∈ id.outline) :
    ∃ content, id.serial? = some content ∧ shown = Hex.numeral content := by
  obtain ⟨key?, issuer?, serial?⟩ := id
  have hkey : ∀ key, "Certificate Serial Number: " ++ shown ≠ "Key Identifier: " ++ Hex.numeral key := by
    intro key heq
    have heq := congrArg String.toList heq
    rw [String.toList_append, String.toList_append] at heq
    exact absurd (List.cons.inj heq).1 (by decide)
  have hissuer : "Certificate Serial Number: " ++ shown ≠ "Certificate Issuer:" := by
    intro heq
    have heq := congrArg String.toList heq
    rw [String.toList_append] at heq
    have hletter : some 'S' = some 'I' := congrArg (·[12]?) heq
    cases hletter
  have hdepth : ∀ names,
      (⟨0, .plain ("Certificate Serial Number: " ++ shown)⟩ : Line) ∉ GeneralName.outline 1 names := by
    intro names hmem
    obtain ⟨name, -, heq⟩ := List.mem_map.mp hmem
    cases congrArg Line.depth heq
  simp only [outline, List.mem_append] at h
  rcases h with (h | h) | h
  · cases key? with
    | none => cases h
    | some key => exact absurd (congrArg (·.content.text) (List.mem_singleton.mp h)) (hkey key)
  · cases issuer? with
    | none => cases h
    | some names =>
      rcases List.mem_append.mp h with h | h
      · exact absurd (congrArg (·.content.text) (List.mem_singleton.mp h)) hissuer
      · exact absurd h (hdepth names)
  · cases serial? with
    | none => cases h
    | some content =>
      have htext := congrArg (·.content.text) (List.mem_singleton.mp h)
      exact ⟨content, rfl, (String.append_right_inj _).mp htext⟩

namespace Extension

variable {extension : Extension} {style : LayoutStyle} {text : String}

/-- The types whose values are one integer of any size. -/
def IsNumber (extension : Extension) : Prop :=
  extension.type? = some .crlNumber ∨ extension.type? = some .deltaCrlIndicator

private theorem number_of_text (h : extension.IsNumber) (htext : extension.text style = .ok text) :
    ∃ content, checkInteger content = .ok () ∧ extension.value ∈ leaf .octetString (leaf .integer {content}) ∧
      text = Hex.numeral content ++ "\n" := by
  have hpresentation : extension.presentation = .ofType integerOctets CrlNumber.outline := by
    rcases h with h | h <;> rw [presentation, h] <;> rfl
  obtain ⟨body, hbody, rfl⟩ := Reader.map_eq_ok htext
  obtain ⟨octets, hoctets, hshown⟩ := octets_of_body hbody
  rw [hpresentation] at hshown
  obtain ⟨lines, hlines, rfl⟩ := Reader.map_eq_ok hshown
  rw [Schema.whole_map] at hlines
  obtain ⟨content, hcontent, rfl⟩ := Reader.map_eq_ok hlines
  obtain ⟨hencoding, -⟩ := (TaggedType.whole_eq_ok_iff (show Tag.integer.number < 31 by decide)).mp hcontent
  obtain ⟨hcheck, helement⟩ := isEncoding_integerOctets_iff.mp hencoding
  refine ⟨content, hcheck, mem_of_octets hoctets (mem_leaf.mpr ⟨content, rfl, helement⟩), ?_⟩
  exact layOut_line style (Hex.numeral content)

private theorem serial_of_body (h : extension.type? = some .authorityKeyIdentifier) {lines : Outline}
    (hbody : extension.body = .ok (.outline lines)) {shown : String}
    (hshown : ⟨0, .plain ("Certificate Serial Number: " ++ shown)⟩ ∈ lines) :
    ∃ content, checkInteger content = .ok () ∧
      extension.value ∈ leaf .octetString (node .sequence (⊤ * leaf (.context 2) {content})) ∧
      shown = Hex.numeral content := by
  obtain ⟨octets, hoctets, hread⟩ := octets_of_body hbody
  rw [presentation, h] at hread
  obtain ⟨outline, houtline, hsame⟩ := Reader.map_eq_ok hread
  cases hsame
  rw [Schema.whole_map] at houtline
  obtain ⟨id, hid, rfl⟩ := Reader.map_eq_ok houtline
  obtain ⟨content, hserial, rfl⟩ := AuthorityKeyIdentifier.serial_of_mem_outline hshown
  obtain ⟨hcheck, hnode⟩ := AuthorityKeyIdentifier.serial_of_whole hid hserial
  exact ⟨content, hcheck, mem_of_octets hoctets hnode, rfl⟩

/-- Two numbers of revocation lists have one text, and two serial numbers in authority key identifiers are shown alike,
just if the integers are the same, or if one is negative and the other is the number that the bytes of the negative one
form without a sign. -/
theorem integer_shown_iff (first second : Extension) :
    (∀ style text other, first.IsNumber → second.IsNumber → first.text style = .ok text →
      second.text style = .ok other →
      ∃ m n content content', content ∈ integerContents m ∧ content' ∈ integerContents n ∧
        first.value ∈ leaf .octetString (leaf .integer {content}) ∧
        second.value ∈ leaf .octetString (leaf .integer {content'}) ∧
        (text = other ↔ AlikeUnsigned m n content content')) ∧
    ∀ lines others shown shown', first.type? = some .authorityKeyIdentifier →
      second.type? = some .authorityKeyIdentifier → first.body = .ok (.outline lines) →
      second.body = .ok (.outline others) → ⟨0, .plain ("Certificate Serial Number: " ++ shown)⟩ ∈ lines →
      ⟨0, .plain ("Certificate Serial Number: " ++ shown')⟩ ∈ others →
      ∃ m n content content', content ∈ integerContents m ∧ content' ∈ integerContents n ∧
        first.value ∈ leaf .octetString (node .sequence (⊤ * leaf (.context 2) {content})) ∧
        second.value ∈ leaf .octetString (node .sequence (⊤ * leaf (.context 2) {content'})) ∧
        (shown = shown' ↔ AlikeUnsigned m n content content') := by
  have hinteger : ∀ {content}, checkInteger content = .ok () →
      content ∈ integerContents (BigEndian.signedValue content) :=
    fun hcheck => mem_integerContents_iff.mpr ⟨hcheck, rfl⟩
  constructor
  · intro style text other hfirst hsecond htext hother
    obtain ⟨content, hcheck, hvalue, rfl⟩ := number_of_text hfirst htext
    obtain ⟨content', hcheck', hvalue', rfl⟩ := number_of_text hsecond hother
    refine ⟨_, _, content, content', hinteger hcheck, hinteger hcheck', hvalue, hvalue', ?_⟩
    rw [String.append_left_inj, Hex.numeral_eq_numeral_iff,
      value_eq_value_iff_of_mem (hinteger hcheck) (hinteger hcheck')]
  · intro lines others shown shown' hfirst hsecond hbody hother hshown hshown'
    obtain ⟨content, hcheck, hvalue, rfl⟩ := serial_of_body hfirst hbody hshown
    obtain ⟨content', hcheck', hvalue', rfl⟩ := serial_of_body hsecond hother hshown'
    refine ⟨_, _, content, content', hinteger hcheck, hinteger hcheck', hvalue, hvalue', ?_⟩
    rw [Hex.numeral_eq_numeral_iff, value_eq_value_iff_of_mem (hinteger hcheck) (hinteger hcheck')]

theorem integer_shown_iff_sevenAndLarge :
    let seven : Extension := ⟨"2.5.29.20", false, [4, 3, 2, 1, 7]⟩
    let large : Extension := ⟨"2.5.29.27", true, [4, 4, 2, 2, 0, 128]⟩
    let sevenSerial : Extension := ⟨"2.5.29.35", false, [4, 5, 48, 3, 130, 1, 7]⟩
    let largeSerial : Extension := ⟨"2.5.29.35", false, [4, 6, 48, 4, 130, 2, 0, 128]⟩
    seven.IsNumber ∧ large.IsNumber ∧ seven.text {} = .ok "0x0007\n" ∧ large.text {} = .ok "0x0080\n" ∧
      (∃ m n content content', seven.value ∈ leaf .octetString (leaf .integer {content}) ∧
        large.value ∈ leaf .octetString (leaf .integer {content'}) ∧ content ∈ integerContents m ∧
        content' ∈ integerContents n ∧ ¬AlikeUnsigned m n content content') ∧
      sevenSerial.body = .ok (.outline (line 0 "Certificate Serial Number: 0x0007")) ∧
      largeSerial.body = .ok (.outline (line 0 "Certificate Serial Number: 0x0080")) ∧
      ∃ m n content content', sevenSerial.value ∈ leaf .octetString (node .sequence (⊤ * leaf (.context 2) {content})) ∧
        largeSerial.value ∈ leaf .octetString (node .sequence (⊤ * leaf (.context 2) {content'})) ∧
        content ∈ integerContents m ∧ content' ∈ integerContents n ∧ ¬AlikeUnsigned m n content content' := by
  intro seven large sevenSerial largeSerial
  have hseven : seven.IsNumber := .inl rfl
  have hlarge : large.IsNumber := .inr rfl
  have hsevenText : seven.text {} = .ok "0x0007\n" := by decide
  have hlargeText : large.text {} = .ok "0x0080\n" := by decide
  have hsevenBody : sevenSerial.body = .ok (.outline (line 0 "Certificate Serial Number: 0x0007")) := by decide
  have hlargeBody : largeSerial.body = .ok (.outline (line 0 "Certificate Serial Number: 0x0080")) := by decide
  obtain ⟨m, n, content, content', hm, hn, hvalue, hvalue', hiff⟩ :=
    (integer_shown_iff seven large).1 {} _ _ hseven hlarge hsevenText hlargeText
  obtain ⟨m', n', serial, serial', hm', hn', hserial, hserial', hiff'⟩ :=
    (integer_shown_iff sevenSerial largeSerial).2 _ _ "0x0007" "0x0080" rfl rfl hsevenBody hlargeBody
      List.mem_cons_self List.mem_cons_self
  refine ⟨hseven, hlarge, hsevenText, hlargeText, ⟨m, n, content, content', hvalue, hvalue', hm, hn, ?_⟩, hsevenBody,
    hlargeBody, m', n', serial, serial', hserial, hserial', hm', hn', ?_⟩
  · exact fun halike => absurd (hiff.mpr halike) (by decide)
  · exact fun halike => absurd (hiff'.mpr halike) (by decide)

/-- The numbers -1 and 255 have one text, and as serial numbers one line. -/
theorem integer_shown_negative :
    let negative : Extension := ⟨"2.5.29.20", false, [4, 3, 2, 1, 255]⟩
    let positive : Extension := ⟨"2.5.29.20", false, [4, 4, 2, 2, 0, 255]⟩
    let negativeSerial : Extension := ⟨"2.5.29.35", false, [4, 5, 48, 3, 130, 1, 255]⟩
    let positiveSerial : Extension := ⟨"2.5.29.35", false, [4, 6, 48, 4, 130, 2, 0, 255]⟩
    negative.value ∈ leaf .octetString (leaf .integer (integerContents (-1))) ∧
      positive.value ∈ leaf .octetString (leaf .integer (integerContents 255)) ∧
      negative.text {} = .ok "0x00FF\n" ∧ positive.text {} = .ok "0x00FF\n" ∧
      negativeSerial.value ∈ leaf .octetString (node .sequence (leaf (.context 2) (integerContents (-1)))) ∧
      positiveSerial.value ∈ leaf .octetString (node .sequence (leaf (.context 2) (integerContents 255))) ∧
      negativeSerial.text {} = .ok "Certificate Serial Number: 0x00FF\n" ∧
      positiveSerial.text {} = .ok "Certificate Serial Number: 0x00FF\n" := by
  intro negative positive negativeSerial positiveSerial
  have hnegative : [255] ∈ integerContents (-1) := mem_integerContents_iff.mpr ⟨rfl, rfl⟩
  have hpositive : [0, 255] ∈ integerContents 255 := mem_integerContents_iff.mpr ⟨rfl, rfl⟩
  refine ⟨make_mem_leaf (make_mem_leaf hnegative (by decide) .integer) (by decide) .octetString,
    make_mem_leaf (make_mem_leaf hpositive (by decide) .integer) (by decide) .octetString, ?_, ?_,
    make_mem_leaf (make_mem_node (make_mem_leaf hnegative (by decide) (.context 2)) (by decide) .sequence) (by decide)
      .octetString,
    make_mem_leaf (make_mem_node (make_mem_leaf hpositive (by decide) (.context 2)) (by decide) .sequence) (by decide)
      .octetString, ?_, ?_⟩
  · rfl
  · decide
  · decide
  · decide

end Extension

end CertExtensions
