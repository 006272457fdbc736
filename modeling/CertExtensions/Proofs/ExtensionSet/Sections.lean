import CertExtensions.ExtensionSet.Description
import CertExtensions.Proofs.Reader
import CertExtensions.Proofs.Text.Lines

/-!
# Sections of a description

A description has a section for each extension: a heading, and the lines of its text with the indent in front. No
heading begins with the indent (`Extension.content?_heading`), and every line of a text does, so the sections are found
again in the description, whatever the texts are (`Section.read_written`). Reading the lines of a text takes the carriage
return in front of each line feed away, and a description is written without it. So a line that ends in two of them
keeps one, and loses it too where the description is read by the same rule (`Section.map_withoutReturn_written`).
-/

namespace CertExtensions

open Asn1 Text

/-! ### Sections -/

/-- A heading and the lines below it. -/
structure Section where
  heading : String
  body : List String
  deriving DecidableEq, Repr

namespace Section

/-- The lines of a section, the indent in front of all but the heading. -/
def written (indent : String) (part : Section) : List String :=
  part.heading :: part.body.map (indent ++ ·)

/-- What stands behind the indent in a line that begins with it. -/
def content? (indent line : String) : Option String :=
  (line.toList.dropPrefix? indent.toList).map String.ofList

/-- The lines that stand in front of all headings, and the sections; every line that does not begin with the indent is
a heading. -/
def read (indent : String) : List String → List String × List Section
  | [] => ([], [])
  | line :: more =>
    let (body, sections) := read indent more
    match content? indent line with
    | some content => (content :: body, sections)
    | none => ([], ⟨line, body⟩ :: sections)

variable {indent : String}

private theorem content?_append (indent line : String) : content? indent (indent ++ line) = some line := by
  have hdrop : (indent ++ line).toList.dropPrefix? indent.toList = some line.toList := by
    simp [List.dropPrefix?_eq_some_iff]
  rw [content?, hdrop, Option.map_some, String.ofList_toList]

private theorem read_body (body more : List String) :
    read indent (body.map (indent ++ ·) ++ more) = (body ++ (read indent more).1, (read indent more).2) := by
  induction body with
  | nil => rfl
  | cons line body ih => rw [List.map_cons, List.cons_append, read, ih, content?_append, List.cons_append]

theorem read_written {parts : List Section} (h : ∀ part ∈ parts, content? indent part.heading = none) :
    read indent (parts.flatMap (written indent)) = ([], parts) := by
  induction parts with
  | nil => rfl
  | cons part parts ih =>
    have hparts := ih fun other hother => h other (List.mem_cons_of_mem _ hother)
    rw [List.flatMap_cons, written, List.cons_append, read, read_body, hparts, h part List.mem_cons_self,
      List.append_nil]

private theorem filter_written {parts : List Section} (h : ∀ part ∈ parts, content? indent part.heading = none) :
    (parts.flatMap (written indent)).filter (fun line => (content? indent line).isNone) = parts.map heading := by
  induction parts with
  | nil => rfl
  | cons part parts ih =>
    have hbody : (part.body.map (indent ++ ·)).filter (fun line => (content? indent line).isNone) = [] := by
      rw [List.filter_eq_nil_iff]
      intro line hline
      obtain ⟨content, -, rfl⟩ := List.mem_map.mp hline
      simp [content?_append]
    have hparts := ih fun other hother => h other (List.mem_cons_of_mem _ hother)
    rw [List.flatMap_cons, List.filter_append, hparts, written,
      List.filter_cons_of_pos (by simp [h part List.mem_cons_self]), hbody]
    rfl

/-- The section without the carriage returns at the ends of its lines. -/
def withoutReturns (part : Section) : Section :=
  ⟨part.heading, part.body.map withoutReturn⟩

end Section

/-! ### Headings -/

/-- The names of types are taken apart as literals, since it takes long to compute the characters of a text. -/
private theorem ExtensionType.exists_name (type : ExtensionType) :
    ∃ first rest, type.name = String.ofList (first :: rest) ∧ first ≠ ' ' ∧ '\n' ∉ first :: rest := by
  cases type <;> exact ⟨_, _, rfl, by decide, by decide⟩

namespace Extension

private theorem exists_name (extension : Extension) : ∃ first rest,
    extension.name?.getD "Unknown Extension" = String.ofList (first :: rest) ∧ first ≠ ' ' ∧ '\n' ∉ first :: rest := by
  unfold name?
  cases extension.type? with
  | none => exact ⟨'U', "nknown Extension".toList, rfl, by decide, by decide⟩
  | some type => exact type.exists_name

variable {extension : Extension}

theorem content?_heading (extension : Extension) : Section.content? "    " extension.heading = none := by
  obtain ⟨first, rest, hname, hfirst, -⟩ := extension.exists_name
  rw [Section.content?, Option.map_eq_none_iff, Option.eq_none_iff_forall_ne_some]
  intro content hcontent
  rw [List.dropPrefix?_eq_some_iff] at hcontent
  obtain ⟨front, hheading, hfront⟩ := hcontent
  rw [beq_iff_eq] at hfront
  rw [heading, hname, hfront] at hheading
  simp only [String.toList_append, String.toList_ofList, List.cons_append] at hheading
  exact hfirst (List.cons.inj hheading).1

private theorem not_mem_heading (h : '\n' ∉ extension.identifier.toList) : '\n' ∉ extension.heading.toList := by
  obtain ⟨first, rest, hname, -, hfeed⟩ := extension.exists_name
  have hflag : '\n' ∉ (if extension.critical then " critical" else "").toList := by
    split <;> decide
  have hopening : '\n' ∉ " (".toList := by decide
  have hclosing : '\n' ∉ ")".toList := by decide
  have hend : '\n' ∉ ":".toList := by decide
  rw [heading, hname]
  simp only [String.toList_append, String.toList_ofList, List.mem_append, hfeed, h, hflag, hopening, hclosing, hend,
    or_self, not_false_eq_true]

private theorem withoutReturn_heading (extension : Extension) :
    withoutReturn extension.heading = extension.heading := by
  rw [withoutReturn_eq_self_iff, heading, String.toList_append]
  have hend : ":".toList = [':'] := rfl
  rw [hend, List.getLast?_concat]
  decide

/-- Whether the section has the heading of the extension, and below it the lines of its text. -/
def Described (style : LayoutStyle) (extension : Extension) (part : Section) : Prop :=
  ∃ text, extension.text style = .ok text ∧ part = ⟨extension.heading, Text.lines text⟩

private theorem describedLines_eq_ok_iff {style : LayoutStyle} {lines : List String} :
    extension.describedLines style = .ok lines ↔
      ∃ part, extension.Described style part ∧ lines = part.written style.indent := by
  constructor
  · intro h
    obtain ⟨text, htext, rfl⟩ := Reader.map_eq_ok h
    exact ⟨_, ⟨text, htext, rfl⟩, rfl⟩
  · rintro ⟨_, ⟨text, htext, rfl⟩, rfl⟩
    rw [describedLines, htext]
    rfl

private theorem describedLines_eq_error_iff {style : LayoutStyle} {fault : Fault} :
    extension.describedLines style = .error fault ↔ extension.text style = .error fault := by
  unfold describedLines
  cases extension.text style with
  | error other => exact ⟨fun h => congrArg _ (Except.error.inj h), fun h => congrArg _ (Except.error.inj h)⟩
  | ok text => exact ⟨nofun, nofun⟩

private theorem mapM_describedLines_eq_ok_iff {style : LayoutStyle} {extensions : List Extension}
    {lists : List (List String)} :
    extensions.mapM (·.describedLines style) = .ok lists ↔
      ∃ parts, List.Forall₂ (Described style) extensions parts ∧ lists = parts.map (Section.written style.indent) := by
  rw [Reader.mapM_eq_ok_iff]
  constructor
  · intro h
    induction h with
    | nil => exact ⟨[], .nil, rfl⟩
    | cons hlines _ ih =>
      obtain ⟨part, hpart, rfl⟩ := describedLines_eq_ok_iff.mp hlines
      obtain ⟨parts, hparts, rfl⟩ := ih
      exact ⟨part :: parts, .cons hpart hparts, rfl⟩
  · rintro ⟨parts, hparts, rfl⟩
    rw [List.forall₂_map_right_iff]
    exact hparts.imp fun extension part hpart => describedLines_eq_ok_iff.mpr ⟨part, hpart, rfl⟩

end Extension

/-! ### Descriptions -/

namespace Section

/-- The lines of sections are read without the carriage returns at their ends. -/
theorem map_withoutReturn_written {parts : List Section}
    (h : ∀ part ∈ parts, withoutReturn part.heading = part.heading) :
    (parts.flatMap (written "    ")).map withoutReturn = (parts.map withoutReturns).flatMap (written "    ") := by
  have hindent : "    ".toList.getLast? ≠ some '\r' := by decide
  induction parts with
  | nil => rfl
  | cons part parts ih =>
    have hparts := ih fun other hother => h other (List.mem_cons_of_mem _ hother)
    have hbody : (part.body.map ("    " ++ ·)).map withoutReturn = (part.body.map withoutReturn).map ("    " ++ ·) := by
      rw [List.map_map, List.map_map]
      exact List.map_congr_left fun line _ => withoutReturn_append hindent line
    rw [List.flatMap_cons, List.map_append, hparts, List.map_cons, List.flatMap_cons, written, List.map_cons, hbody,
      h part List.mem_cons_self]
    rfl

end Section

namespace ExtensionSet

variable {set : ExtensionSet} {style : LayoutStyle}

private theorem describe_eq_ok_iff {described : String} :
    set.describe style = .ok described ↔
      ∃ parts, List.Forall₂ (Extension.Described style) set.toList parts ∧
        described = unlines (parts.flatMap (Section.written style.indent)) := by
  have hmap : ∀ lists : List (List String), set.toList.mapM (·.describedLines style) = .ok lists ↔
      ∃ parts, List.Forall₂ (Extension.Described style) set.toList parts ∧
        lists = parts.map (Section.written style.indent) := fun _ => Extension.mapM_describedLines_eq_ok_iff
  unfold describe
  cases hlists : set.toList.mapM (·.describedLines style) with
  | error fault =>
    refine ⟨nofun, ?_⟩
    rintro ⟨parts, hparts, -⟩
    have hok := (hmap _).mpr ⟨parts, hparts, rfl⟩
    rw [hlists] at hok
    cases hok
  | ok lists =>
    constructor
    · intro h
      cases h
      obtain ⟨parts, hparts, rfl⟩ := (hmap _).mp hlists
      exact ⟨parts, hparts, rfl⟩
    · rintro ⟨parts, hparts, rfl⟩
      have hok := (hmap _).mpr ⟨parts, hparts, rfl⟩
      rw [hlists] at hok
      cases hok
      rfl

/-- The error is that of the first extension without a text. -/
private theorem describe_eq_error_iff {error : Error} :
    set.describe style = .error error ↔
      ∃ front extension back fault, set.toList = front ++ extension :: back ∧
        (∀ other ∈ front, ∃ text, other.text style = .ok text) ∧ extension.text style = .error fault ∧
        error = .decode fault := by
  have hlines : ∀ extension : Extension, (∃ lines, extension.describedLines style = .ok lines) ↔
      ∃ text, extension.text style = .ok text := by
    intro extension
    simp [Extension.describedLines_eq_ok_iff, Extension.Described]
  have herror : set.describe style = .error error ↔
      ∃ fault, set.toList.mapM (·.describedLines style) = .error fault ∧ error = .decode fault := by
    unfold describe
    cases set.toList.mapM (·.describedLines style) with
    | ok lists => exact ⟨nofun, fun ⟨_, h, _⟩ => nomatch h⟩
    | error fault => simp [eq_comm]
  rw [herror]
  simp only [Reader.mapM_eq_error_iff, hlines, Extension.describedLines_eq_error_iff]
  constructor
  · rintro ⟨fault, ⟨front, extension, back, hlist, hfront, hfault⟩, herror⟩
    exact ⟨front, extension, back, fault, hlist, hfront, hfault, herror⟩
  · rintro ⟨front, extension, back, fault, hlist, hfront, hfault, herror⟩
    exact ⟨fault, ⟨front, extension, back, hlist, hfront, hfault⟩, herror⟩

private theorem map_heading_of_described {extensions : List Extension} {parts : List Section}
    (h : List.Forall₂ (Extension.Described style) extensions parts) :
    parts.map Section.heading = extensions.map Extension.heading := by
  induction h with
  | nil => rfl
  | cons hfirst _ ih =>
    obtain ⟨text, -, rfl⟩ := hfirst
    rw [List.map_cons, List.map_cons, ih]

private theorem not_mem_written {extensions : List Extension} {parts : List Section}
    (h : List.Forall₂ (Extension.Described style) extensions parts)
    (hfeed : ∀ extension ∈ extensions, '\n' ∉ extension.identifier.toList) :
    ∀ line ∈ parts.flatMap (Section.written "    "), '\n' ∉ line.toList := by
  intro line hline
  obtain ⟨part, hpart, hline⟩ := List.mem_flatMap.mp hline
  obtain ⟨extension, hextension, text, -, rfl⟩ := (Reader.mem_of_forall₂ h).2 part hpart
  rcases List.mem_cons.mp hline with rfl | hline
  · exact Extension.not_mem_heading (hfeed extension hextension)
  · obtain ⟨content, hcontent, rfl⟩ := List.mem_map.mp hline
    simp [not_mem_of_mem_lines hcontent]

/-- A set has a description exactly if each of its extensions has a text, and otherwise the error of the first one that
has none. The lines of a description that do not begin with the indent are the headings of the extensions, in their
order, and the lines below each heading are those of the text of the extension, with the indent in front. Reading the
description as a text is read takes one more carriage return from the end of each line that still has one. -/
theorem describe_sections {set : ExtensionSet} (hfeed : ∀ extension ∈ set.toList, '\n' ∉ extension.identifier.toList)
    (linkUris : Bool) :
    ((∃ described, set.describe { linkUris } = .ok described) ↔
        ∀ extension ∈ set.toList, ∃ text, extension.text { linkUris } = .ok text) ∧
      (∀ error, set.describe { linkUris } = .error error ↔
        ∃ front extension back fault, set.toList = front ++ extension :: back ∧
          (∀ other ∈ front, ∃ text, other.text { linkUris } = .ok text) ∧
          extension.text { linkUris } = .error fault ∧ error = .decode fault) ∧
      ∀ described, set.describe { linkUris } = .ok described →
        ∃ parts, List.Forall₂ (Extension.Described { linkUris }) set.toList parts ∧
          described = unlines (linesByFeed described) ∧
          (linesByFeed described).filter (fun line => (Section.content? "    " line).isNone) =
            set.toList.map Extension.heading ∧
          Section.read "    " (linesByFeed described) = ([], parts) ∧
          Section.read "    " (Text.lines described) = ([], parts.map Section.withoutReturns) := by
  refine ⟨?_, fun error => describe_eq_error_iff, ?_⟩
  · constructor
    · rintro ⟨described, hdescribed⟩ extension hextension
      obtain ⟨parts, hparts, -⟩ := describe_eq_ok_iff.mp hdescribed
      obtain ⟨part, -, text, htext, -⟩ := (Reader.mem_of_forall₂ hparts).1 extension hextension
      exact ⟨text, htext⟩
    · intro h
      cases hdescribe : set.describe { linkUris } with
      | ok described => exact ⟨described, rfl⟩
      | error error =>
        obtain ⟨front, extension, back, fault, hlist, -, hfault, -⟩ := describe_eq_error_iff.mp hdescribe
        obtain ⟨text, htext⟩ := h extension (by simp [hlist])
        rw [hfault] at htext
        cases htext
  · intro described hdescribed
    obtain ⟨parts, hparts, rfl⟩ := describe_eq_ok_iff.mp hdescribed
    have hlines := not_mem_written hparts hfeed
    have hheading : ∀ part ∈ parts, Section.content? "    " part.heading = none := by
      intro part hpart
      obtain ⟨extension, -, text, -, rfl⟩ := (Reader.mem_of_forall₂ hparts).2 part hpart
      exact extension.content?_heading
    have hreturn : ∀ part ∈ parts, withoutReturn part.heading = part.heading := by
      intro part hpart
      obtain ⟨extension, -, text, -, rfl⟩ := (Reader.mem_of_forall₂ hparts).2 part hpart
      exact extension.withoutReturn_heading
    have hheadings : ∀ part ∈ parts.map Section.withoutReturns, Section.content? "    " part.heading = none := by
      intro part hpart
      obtain ⟨whole, hwhole, rfl⟩ := List.mem_map.mp hpart
      exact hheading whole hwhole
    refine ⟨parts, hparts, ?_, ?_, ?_, ?_⟩
    · rw [linesByFeed_unlines hlines]
    · rw [linesByFeed_unlines hlines, Section.filter_written hheading, map_heading_of_described hparts]
    · rw [linesByFeed_unlines hlines]
      exact Section.read_written hheading
    · rw [lines_unlines_of_not_mem hlines, Section.map_withoutReturn_written hreturn]
      exact Section.read_written hheadings

/-- Nine bytes of an unknown type are shown in two rows, the second without a line feed, and no names in no line. -/
theorem describe_sections_dump :
    let set := empty.insertAll [⟨"1.2", true, [4, 9, 1, 2, 3, 4, 5, 6, 7, 8, 9]⟩, ⟨"2.5.29.18", false, [4, 2, 0x30, 0]⟩]
    let described := "Unknown Extension (1.2) critical:\n    01 02 03 04 05 06 07 08   ........\n" ++
      "    09                        .\nIssuer Alternative Name (2.5.29.18):\n"
    (∀ extension ∈ set.toList, '\n' ∉ extension.identifier.toList) ∧
      set.describe { linkUris := false } = .ok described ∧
      ∃ parts, List.Forall₂ (Extension.Described { linkUris := false }) set.toList parts ∧
        Section.read "    " (linesByFeed described) = ([], parts) := by
  intro set described
  have hfeed : ∀ extension ∈ set.toList, '\n' ∉ extension.identifier.toList := by decide
  have hdescribed : set.describe { linkUris := false } = .ok described := rfl
  obtain ⟨-, -, hsections⟩ := describe_sections hfeed false
  obtain ⟨parts, hparts, -, -, hread, -⟩ := hsections described hdescribed
  exact ⟨hfeed, hdescribed, parts, hparts, hread⟩

/-- A name that ends in a carriage return: its line has one less in the description than in the text, whether or not a
carriage return in front of the line feed is taken for a part of the line. -/
theorem describe_sections_doubleReturn :
    let extension : Extension := ⟨"2.5.29.17", false, [4, 7, 0x30, 5, 0x82, 3, 0x61, 0xD, 0xD]⟩
    let text := "DNS Name: a\r\r\n"
    let described := extension.heading ++ "\n    DNS Name: a\r\n"
    extension.text {} = .ok text ∧ (empty.insert extension).describe {} = .ok described ∧
      Section.read "    " (Text.lines described) ≠ ([], [⟨extension.heading, Text.lines text⟩]) ∧
      Section.read "    " (linesByFeed described) ≠ ([], [⟨extension.heading, linesByFeed text⟩]) := by
  decide

end ExtensionSet

end CertExtensions
