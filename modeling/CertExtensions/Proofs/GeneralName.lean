import CertExtensions.GeneralName
import CertExtensions.Proofs.Name
import CertExtensions.Proofs.Text.Digits

/-!
# Character strings in names

What is shown of a name is fixed words, numbers and signs, and the character strings that the name holds (`strings`).
Only these strings are not in the hands of the writer, so a control character that is shown comes from one of them
(`mem_layOut_phrase_iff`), and names that hold no string are always shown without control characters.
-/

namespace CertExtensions

open Asn1 Text

/-! ### Texts without control characters -/

/-- Whether no character of the text is a control character such as the line feed. -/
def Text.Visible (text : List Char) : Prop := ∀ c ∈ text, 32 ≤ c.toNat

instance (text : List Char) : Decidable (Text.Visible text) := List.decidableBAll (fun c : Char => 32 ≤ c.toNat) text

namespace Text.Visible

variable {text front back : List Char}

private theorem append (hfront : Visible front) (hback : Visible back) : Visible (front ++ back) := by
  intro c hc
  rcases List.mem_append.mp hc with hc | hc
  · exact hfront c hc
  · exact hback c hc

private theorem join {separator : Char} {pieces : List (List Char)} (hseparator : 32 ≤ separator.toNat)
    (h : ∀ piece ∈ pieces, Visible piece) : Visible (join separator pieces) := by
  intro c hc
  rcases mem_join hc with ⟨piece, hpiece, hc⟩ | rfl
  · exact h piece hpiece c hc
  · exact hseparator

private theorem of_isAlphanum {c : Char} (h : c.isAlphanum) : 32 ≤ c.toNat := by
  by_contra hlt
  have hall : ∀ n : Fin 32, ¬ (Char.ofNat n).isAlphanum := by decide
  refine hall ⟨c.toNat, by omega⟩ ?_
  rw [Char.ofNat_toNat]
  exact h

private theorem numeral (bytes : List UInt8) : Visible (Hex.numeral bytes).toList := by
  intro c hc
  rcases Hex.mem_numeral hc with hword | rfl
  · exact of_isAlphanum hword
  · decide

private theorem dotted (id : ObjectId) : Visible id.dotted.toList := by
  intro c hc
  rcases ObjectId.mem_dotted hc with hdigit | rfl
  · exact of_isAlphanum (by simp [Char.isAlphanum, hdigit])
  · decide

private theorem toDigits {base : Nat} (h : 1 < base) (hbase : base ≤ 16) (n : Nat) : Visible (Nat.toDigits base n) := by
  have hdigit : ∀ d : Fin 16, 32 ≤ (Nat.digitChar d).toNat := by decide
  intro c hc
  obtain ⟨d, hd, rfl⟩ := mem_toDigits h hc
  exact hdigit ⟨d, by omega⟩

private theorem fourText (octets : List UInt8) : Visible (IpAddress.fourText octets) := by
  refine join (by decide) fun piece hpiece => ?_
  obtain ⟨b, -, rfl⟩ := List.mem_map.mp hpiece
  exact toDigits (by decide) (by decide) b.toNat

private theorem groupText (groups : List Nat) : Visible (IpAddress.groupText groups) := by
  refine join (by decide) fun piece hpiece => ?_
  obtain ⟨group, -, rfl⟩ := List.mem_map.mp hpiece
  exact toDigits (by decide) (by decide) group

private theorem sixteenText (octets : List UInt8) : Visible (IpAddress.sixteenText octets) := by
  have hcolons : Visible [':', ':'] := by decide
  unfold IpAddress.sixteenText
  split
  · exact append (by decide) (fourText _)
  · dsimp only
    split
    · exact groupText _
    · exact (groupText _).append (hcolons.append (groupText _))

private theorem ipAddress (octets : List UInt8) : Visible (IpAddress.text octets).toList := by
  have hslash : Visible ['/'] := by decide
  unfold IpAddress.text
  split
  · rw [String.toList_ofList]
    exact fourText octets
  · rw [String.toList_ofList]
    exact sixteenText octets
  · rw [String.toList_ofList]
    exact (fourText _).append (hslash.append (fourText _))
  · rw [String.toList_ofList]
    exact (sixteenText _).append (hslash.append (sixteenText _))
  · exact numeral octets

end Text.Visible

/-! ### Distinguished names -/

namespace Name

variable {c : Char}

private theorem mem_escapeRest_iff (hc : c ≠ '\\') (text : List Char) : c ∈ escapeRest text ↔ c ∈ text := by
  fun_induction escapeRest text with
  | case1 => rfl
  | case2 d h => simp [hc]
  | case3 d h => rfl
  | case4 d rest _ h ih => simp [hc, ih]
  | case5 d rest _ h ih => simp [ih]

private theorem mem_escape_iff (hc : c ≠ '\\') (text : List Char) : c ∈ escape text ↔ c ∈ text := by
  cases text with
  | nil => rfl
  | cons d rest =>
    rw [escape]
    split
    · simp [hc, mem_escapeRest_iff hc]
    · simp [mem_escapeRest_iff hc]

/-- The character string that a value is; none if it is another element. -/
def string? (value : List UInt8) : Option String :=
  (anyString.whole value).toOption

/-- The values that are character strings. -/
def strings (name : Name) : List String :=
  name.relativeNames.flatten.filterMap fun attr => string? attr.value

private theorem mem_valueText_iff (hc : c.toNat < 32) (value : List UInt8) :
    c ∈ valueText value ↔ ∃ text, string? value = some text ∧ c ∈ text.toList := by
  have hslash : c ≠ '\\' := by
    rintro rfl
    exact absurd hc (by decide)
  unfold valueText string?
  cases anyString.whole value with
  | ok text => simp [mem_escape_iff hslash, Except.toOption]
  | error fault =>
    have hdigits : c ∉ '#' :: Hex.digits value := by
      intro h
      rcases List.mem_cons.mp h with rfl | h
      · exact absurd hc (by decide)
      · have hle := Visible.of_isAlphanum (Hex.isAlphanum_of_mem_digits h)
        omega
    simp [Except.toOption, hdigits]

private theorem mem_attributeText_iff (hc : c.toNat < 32) (attr : Attribute) :
    c ∈ attributeText attr ↔ ∃ text, string? attr.value = some text ∧ c ∈ text.toList := by
  have hkey : c ∉ (Attribute.keyword attr.type).toList := by
    intro h
    rcases Attribute.mem_keyword h with hword | rfl
    · have hle := Visible.of_isAlphanum hword
      omega
    · exact absurd hc (by decide)
  have hsign : c ≠ '=' := by
    rintro rfl
    exact absurd hc (by decide)
  simp [attributeText, hkey, hsign, mem_valueText_iff hc]

private theorem mem_text_iff (hc : c.toNat < 32) (name : Name) :
    c ∈ name.text.toList ↔ ∃ text ∈ name.strings, c ∈ text.toList := by
  have hcomma : c ≠ ',' := by
    rintro rfl
    exact absurd hc (by decide)
  have hplus : c ≠ '+' := by
    rintro rfl
    exact absurd hc (by decide)
  have hrelative : ∀ relative : RelativeName,
      c ∈ relativeText relative ↔ ∃ attr ∈ relative, c ∈ attributeText attr := by
    intro relative
    rw [relativeText, mem_join_iff_of_ne hplus]
    simp
  rw [text, String.toList_ofList, mem_join_iff_of_ne hcomma]
  simp only [List.mem_map, strings, List.mem_filterMap, List.mem_flatten]
  constructor
  · rintro ⟨piece, ⟨relative, hmem, rfl⟩, h⟩
    obtain ⟨attr, hattr, h⟩ := (hrelative relative).mp h
    obtain ⟨shown, hshown, h⟩ := (mem_attributeText_iff hc attr).mp h
    exact ⟨shown, ⟨attr, ⟨relative, hmem, hattr⟩, hshown⟩, h⟩
  · rintro ⟨shown, ⟨attr, ⟨relative, hmem, hattr⟩, hshown⟩, h⟩
    refine ⟨relativeText relative, ⟨relative, hmem, rfl⟩, (hrelative relative).mpr ⟨attr, hattr, ?_⟩⟩
    exact (mem_attributeText_iff hc attr).mpr ⟨shown, hshown, h⟩

end Name

/-! ### General names -/

namespace GeneralName

/-- The character strings that the name holds and that are shown. -/
def strings : GeneralName → List String
  | .other type value => if type = ObjectId.userPrincipalName then (utf8String.whole value).toOption.toList else []
  | .mailbox address => [address]
  | .dns name => [name]
  | .directory name => name.strings
  | .ediParty assigner? party => party :: assigner?.toList
  | .uri target => [target]
  | .x400 _ | .ip _ | .registered _ => []

variable {c : Char}

private theorem not_mem_of_visible (hc : c.toNat < 32) {text : List Char} (h : Visible text) : c ∉ text := by
  intro hmem
  have hle := h c hmem
  omega

private theorem mem_append_iff_right (hc : c.toNat < 32) (label : String) (hlabel : Visible label.toList)
    (text : String) :
    c ∈ (label ++ text).toList ↔ c ∈ text.toList := by
  rw [String.toList_append, List.mem_append, or_iff_right (not_mem_of_visible hc hlabel)]

private theorem mem_append_iff_left (hc : c.toNat < 32) (label : String) (hlabel : Visible label.toList)
    (text : String) :
    c ∈ (text ++ label).toList ↔ c ∈ text.toList := by
  rw [String.toList_append, List.mem_append, or_iff_left (not_mem_of_visible hc hlabel)]

private theorem mem_otherText_iff (hc : c.toNat < 32) (type : ObjectId) (value : List UInt8) :
    c ∈ (otherText type value).toList ↔ ∃ text ∈ strings (.other type value), c ∈ text.toList := by
  have hnumeral : c ∉ ("Other Name: " ++ type.dotted ++ ": " ++ Hex.numeral value).toList := by
    simp only [String.toList_append]
    refine not_mem_of_visible hc ?_
    exact .append (.append (.append (by decide) (.dotted type)) (by decide)) (.numeral value)
  by_cases htype : type = ObjectId.userPrincipalName
  · cases hvalue : utf8String.whole value with
    | ok principal =>
      have htext : otherText type value = "Other Name: UPN: " ++ principal := by
        rw [otherText, if_pos htype, hvalue]
      rw [htext, mem_append_iff_right hc _ (by decide)]
      simp [strings, htype, hvalue, Except.toOption]
    | error fault =>
      have htext : otherText type value = "Other Name: " ++ type.dotted ++ ": " ++ Hex.numeral value := by
        rw [otherText, if_pos htype, hvalue]
      rw [htext]
      exact iff_of_false hnumeral (by simp [strings, htype, hvalue, Except.toOption])
  · have htext : otherText type value = "Other Name: " ++ type.dotted ++ ": " ++ Hex.numeral value := by
      rw [otherText, if_neg htype]
    rw [htext]
    exact iff_of_false hnumeral (by simp [strings, htype])

private theorem mem_anchor_iff (hc : c.toNat < 32) (target : String) :
    c ∈ (Phrase.anchor target).toList ↔ c ∈ target.toList := by
  have hfirst : c ∈ (Phrase.anchor target).toList ↔ c ∈ ("<a href=\"" ++ target ++ "\">" ++ target).toList :=
    mem_append_iff_left hc _ (by decide) _
  have hopening : c ∈ ("<a href=\"" ++ target ++ "\">").toList ↔ c ∈ target.toList := by
    rw [mem_append_iff_left hc _ (by decide), mem_append_iff_right hc _ (by decide)]
  rw [hfirst, String.toList_append, List.mem_append, hopening, or_self]

/-- A control character is shown exactly where one of the strings of the name holds it. -/
theorem mem_layOut_phrase_iff (hc : c.toNat < 32) (linkUris : Bool) (name : GeneralName) :
    c ∈ (name.phrase.layOut linkUris).toList ↔ ∃ text ∈ name.strings, c ∈ text.toList := by
  cases name with
  | other type value => exact mem_otherText_iff hc type value
  | mailbox address | dns address =>
    refine (mem_append_iff_right hc _ (by decide) address).trans ?_
    simp [strings]
  | directory name =>
    refine (mem_append_iff_right hc _ (by decide) name.text).trans ?_
    exact Name.mem_text_iff hc name
  | ediParty assigner? party =>
    have hparty := mem_append_iff_right hc "EDI Party Name: " (by decide) party
    cases assigner? with
    | none =>
      refine hparty.trans ?_
      simp [strings]
    | some assigner =>
      have hfront := mem_append_iff_left hc " (" (by decide) ("EDI Party Name: " ++ party)
      refine (mem_append_iff_left hc _ (by decide) _).trans ?_
      rw [String.toList_append, List.mem_append, hfront, hparty]
      simp [strings]
  | uri target =>
    refine (mem_append_iff_right hc "Uniform Resource Identifier: " (by decide) _).trans ?_
    cases linkUris with
    | false => simp [strings]
    | true =>
      refine (mem_anchor_iff hc target).trans ?_
      simp [strings]
  | x400 encoding =>
    refine (mem_append_iff_right hc "X.400 Address: " (by decide) _).trans ?_
    exact iff_of_false (not_mem_of_visible hc (.numeral encoding)) (by simp [strings])
  | ip octets =>
    refine (mem_append_iff_right hc "IP Address: " (by decide) _).trans ?_
    exact iff_of_false (not_mem_of_visible hc (.ipAddress octets)) (by simp [strings])
  | registered id =>
    refine (mem_append_iff_right hc "Registered ID: " (by decide) _).trans ?_
    exact iff_of_false (not_mem_of_visible hc (.dotted id)) (by simp [strings])

end GeneralName

end CertExtensions
