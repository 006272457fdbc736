import CertExtensions.Proofs.Extension.Extent
import CertExtensions.Proofs.Extension.Layout
import CertExtensions.Proofs.GeneralName
import CertExtensions.Proofs.Text.Lines

/-!
# A line for each name

An alternative name and a certificate issuer are shown as their general names, each with a line feed behind it
(`layOut_outline`). Nothing is escaped in a name outside of a directory name, and there a line feed is not: so a
character string with a line feed makes its name take more than one line, and nothing else does. `lines_of_names` counts
the lines, and says when they are the names.
-/

namespace CertExtensions

open Asn1 Text

namespace GeneralName

/-- What is shown of a name. -/
def display (linkUris : Bool) (name : GeneralName) : String :=
  name.phrase.layOut linkUris

theorem contents_outline (linkUris : Bool) (depth : Nat) (names : List GeneralName) :
    (outline depth names).contents linkUris = names.map fun name => (depth, name.display linkUris) := by
  unfold outline Outline.contents
  rw [List.map_map]
  rfl

theorem layOut_outline (style : LayoutStyle) (names : List GeneralName) :
    (outline 0 names).layOut style = unlines (names.map (display style.linkUris)) := by
  induction names with
  | nil => rfl
  | cons name names ih =>
    have hcons : (outline 0 (name :: names)).layOut style =
        Outline.layOutLine style ⟨0, name.phrase⟩ ++ (outline 0 names).layOut style := rfl
    have hline : Outline.layOutLine style ⟨0, name.phrase⟩ = display style.linkUris name ++ "\n" := by
      rw [Outline.layOutLine, Outline.indentation, String.empty_append, display]
    rw [hcons, hline, ih, List.map_cons, unlines_cons]

/-- Whether a character string with a line feed is shown of the name. -/
def HoldsLineFeed (name : GeneralName) : Prop :=
  ∃ text ∈ name.strings, '\n' ∈ text.toList

instance (name : GeneralName) : Decidable name.HoldsLineFeed :=
  inferInstanceAs (Decidable (∃ text ∈ name.strings, '\n' ∈ text.toList))

private theorem mem_display_iff (linkUris : Bool) (name : GeneralName) :
    '\n' ∈ (name.display linkUris).toList ↔ name.HoldsLineFeed :=
  mem_layOut_phrase_iff (by decide) linkUris name

end GeneralName

/-- The types whose values are general names and nothing else. -/
def ExtensionType.ofNames : List ExtensionType :=
  [.subjectAlternativeName, .issuerAlternativeName, .certificateIssuer]

private theorem ExtensionType.presentation_of_mem {type : ExtensionType} (h : type ∈ ofNames) :
    type.presentation = .ofType GeneralName.listType (GeneralName.outline 0) := by
  simp only [ofNames, List.mem_cons, List.not_mem_nil, or_false] at h
  rcases h with rfl | rfl | rfl <;> rfl

namespace Extension

variable {extension : Extension} {type : ExtensionType} {style : LayoutStyle}

/-- The text of general names has a line for each of them and one more for each line feed in them. So there are as many
lines as names if no string in a name holds a line feed, and not otherwise; and the lines are then what is shown of the
names, in their order, unless one of these ends in a carriage return. -/
theorem lines_of_names (htype : extension.type? = some type) (hnames : type ∈ ExtensionType.ofNames) {text : String}
    (htext : extension.text style = .ok text) :
    ∃ octets names, octetString.whole extension.value = .ok octets ∧ GeneralName.listType.whole octets = .ok names ∧
      text = unlines (names.map (·.display style.linkUris)) ∧
      (Text.lines text).length =
        names.length + (names.map fun name => (name.display style.linkUris).toList.count '\n').sum ∧
      ((Text.lines text).length = names.length ↔ ∀ name ∈ names, ¬ name.HoldsLineFeed) ∧
      (Text.lines text = names.map (·.display style.linkUris) ↔
        ∀ name ∈ names, ¬ name.HoldsLineFeed ∧ (name.display style.linkUris).toList.getLast? ≠ some '\r') := by
  cases hvalue : octetString.whole extension.value with
  | error fault =>
    rw [Extension.text, body, hvalue] at htext
    cases htext
  | ok octets =>
    rw [text_of_schema htype (ExtensionType.presentation_of_mem hnames) hvalue, Schema.whole_map] at htext
    obtain ⟨lines, hlines, rfl⟩ := Reader.map_eq_ok htext
    obtain ⟨names, hread, rfl⟩ := Reader.map_eq_ok hlines
    rw [GeneralName.layOut_outline]
    refine ⟨octets, names, rfl, hread, rfl, ?_, ?_, ?_⟩
    · rw [length_lines_unlines, List.length_map, List.map_map]
      rfl
    · have hlength : (Text.lines (unlines (names.map (·.display style.linkUris)))).length = names.length ↔
          ∀ line ∈ names.map (·.display style.linkUris), '\n' ∉ line.toList := by
        rw [← length_lines_unlines_eq_iff, List.length_map]
      rw [hlength]
      simp [GeneralName.mem_display_iff]
    · rw [lines_unlines_eq_iff]
      simp [GeneralName.mem_display_iff]

/-- A link to a URI with a line feed at its end takes three lines. -/
theorem lines_of_names_brokenLink :
    let extension : Extension := ⟨"2.5.29.29", true, [4, 11, 0x30, 9, 0x86, 3, 0x75, 0x3A, 0x0A, 0x81, 2, 0x6D, 0x0D]⟩
    let text := "Uniform Resource Identifier: <a href=\"u:\n\">u:\n</a>\nRFC 822 Name: m\r\n"
    extension.type? = some .certificateIssuer ∧ .certificateIssuer ∈ ExtensionType.ofNames ∧
      extension.text { linkUris := true } = .ok text ∧
      GeneralName.listType.whole [0x30, 9, 0x86, 3, 0x75, 0x3A, 0x0A, 0x81, 2, 0x6D, 0x0D] =
        .ok [.uri "u:\n", .mailbox "m\r"] ∧
      (Text.lines text).length = 4 := by
  intro extension text
  have htype : extension.type? = some .certificateIssuer := by decide
  have hnames : .certificateIssuer ∈ ExtensionType.ofNames := by decide
  have htext : extension.text { linkUris := true } = .ok text := rfl
  have hread : GeneralName.listType.whole [0x30, 9, 0x86, 3, 0x75, 0x3A, 0x0A, 0x81, 2, 0x6D, 0x0D] =
      .ok [.uri "u:\n", .mailbox "m\r"] := rfl
  obtain ⟨octets, names, hoctets, hshown, -, hlength, -, -⟩ := lines_of_names htype hnames htext
  have hvalue : octetString.whole extension.value =
      .ok [0x30, 9, 0x86, 3, 0x75, 0x3A, 0x0A, 0x81, 2, 0x6D, 0x0D] := rfl
  obtain rfl := Except.ok.inj (hvalue.symm.trans hoctets)
  obtain rfl := Except.ok.inj (hread.symm.trans hshown)
  exact ⟨htype, hnames, htext, hread, hlength.trans (by decide)⟩

/-- One DNS name with a line feed has the text of two DNS names. -/
theorem lines_of_names_forgedName :
    let forged : Extension := ⟨"2.5.29.17", false, [4, 17, 0x30, 15, 0x82, 13, 0x61, 0x0A,
      0x44, 0x4E, 0x53, 0x20, 0x4E, 0x61, 0x6D, 0x65, 0x3A, 0x20, 0x62]⟩
    let names : List GeneralName := [.dns "a\nDNS Name: b"]
    let text := "DNS Name: a\nDNS Name: b\n"
    octetString.whole forged.value = .ok (forged.value.drop 2) ∧
      GeneralName.listType.whole (forged.value.drop 2) = .ok names ∧ forged.text {} = .ok text ∧
      (Text.lines text).length ≠ names.length ∧ Text.lines text ≠ names.map (·.display false) ∧
      (⟨"2.5.29.17", false, [4, 8, 0x30, 6, 0x82, 1, 0x61, 0x82, 1, 0x62]⟩ : Extension).text {} = .ok text ∧
      GeneralName.listType.whole [0x30, 6, 0x82, 1, 0x61, 0x82, 1, 0x62] = .ok [.dns "a", .dns "b"] := by
  decide

end Extension

end CertExtensions
