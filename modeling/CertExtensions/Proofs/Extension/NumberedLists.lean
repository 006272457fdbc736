import CertExtensions.Proofs.Asn1.ElementList
import CertExtensions.Proofs.Extension.Rendering

/-!
# Numbered lists

Nine types of extensions are lists whose items are shown in blocks, each under a heading with the number of the block
(`ExtensionType.numbering?`). A list has a text just if each of its elements has one as the only element of a list, and
the text is that of the blocks of the single elements, one behind the other and counted from one on
(`Extension.numberedList_text`). It rests on `TaggedType.whole_sequenceOf` for what is read, and on `Numbering.Counts`
for what is shown: a block depends on its number by its headings alone.
-/

namespace CertExtensions

open Asn1

/-! ### Headings -/

/-- How blocks are numbered: what their headings say in front of the number and behind it. The headings inside of a
block, where a type has them, say the number of the block and one of their own. -/
structure Numbering where
  title : String
  close : String := "]:"
  inner? : Option String := none

namespace Numbering

/-- The heading of a block. -/
def heading (numbering : Numbering) (number : Nat) : String :=
  numbering.title ++ " [" ++ toString number ++ numbering.close

/-- What stands in front of the number of the block in the headings of a depth. -/
def opening? (numbering : Numbering) : Nat → Option String
  | 0 => some (numbering.title ++ " [")
  | 1 => numbering.inner?.map (· ++ " [")
  | _ => none

/-- The line, with another number in place of 1 if it is a heading of the first block. -/
def renumber (numbering : Numbering) (number : Nat) (line : Line) : Line :=
  match numbering.opening? line.depth with
  | none => line
  | some opening =>
    match (opening ++ "1").toList.isPrefixOf? line.content.text.toList with
    | none => line
    | some rest => ⟨line.depth, ⟨opening ++ toString number ++ String.ofList rest, line.content.uri?⟩⟩

/-- A block is the first one with other numbers in its headings, and has one heading of its own. -/
structure Counts {α : Type} (numbering : Numbering) (block : Nat → α → Outline) : Prop where
  renumber : ∀ number value, (block 1 value).map (numbering.renumber number) = block number value
  heading : ∀ number value,
    (block number value).filter (·.depth = 0) = Outline.line 0 (numbering.heading number)

variable {numbering : Numbering} {depth : Nat} {opening : String}

private theorem opening?_of_two_le (h : 2 ≤ depth) : numbering.opening? depth = none := by
  unfold opening?
  split <;> first | omega | rfl

private theorem opening?_of_inner (hinner : numbering.inner? = none) (h : 1 ≤ depth) :
    numbering.opening? depth = none := by
  unfold opening?
  split
  · omega
  · rw [hinner]
    rfl
  · rfl

private theorem renumber_heading (h : numbering.opening? depth = some opening) (number : Nat) (rest : String) :
    (Outline.line depth (opening ++ toString 1 ++ rest)).map (numbering.renumber number) =
      Outline.line depth (opening ++ toString number ++ rest) := by
  have hprefix : (opening ++ "1").toList.isPrefixOf? (opening ++ toString 1 ++ rest).toList = some rest.toList := by
    rw [List.isPrefixOf?_eq_some_iff_append_eq, ← String.toList_append]
    rfl
  simp only [Outline.line, List.map_cons, List.map_nil, renumber, h, Phrase.plain, hprefix, String.ofList_toList]

private theorem renumber_title (number : Nat) :
    (Outline.line 0 (numbering.heading 1)).map (numbering.renumber number) =
      Outline.line 0 (numbering.heading number) :=
  renumber_heading (show numbering.opening? 0 = some (numbering.title ++ " [") from rfl) number numbering.close

private theorem renumber_of_not_heading (h : numbering.opening? depth = some opening) {text : String}
    (hother : (opening ++ "1").toList.isPrefixOf? text.toList = none) (number : Nat) :
    (Outline.line depth text).map (numbering.renumber number) = Outline.line depth text := by
  simp only [Outline.line, List.map_cons, List.map_nil, renumber, h, Phrase.plain, hother]

end Numbering

/-! ### Lines below a heading -/

namespace Outline

/-- No line is less deep. -/
def Below (depth : Nat) (lines : Outline) : Prop :=
  ∀ line ∈ lines, depth ≤ line.depth

variable {α : Type} {depth deeper : Nat} {front back : Outline}

private theorem Below.mono (h : Below deeper front) (hle : depth ≤ deeper) : Below depth front :=
  fun line hline => Nat.le_trans hle (h line hline)

@[simp] theorem below_nil : Below depth [] := nofun

@[simp] theorem below_append : Below depth (front ++ back) ↔ Below depth front ∧ Below depth back :=
  List.forall_mem_append

@[simp] theorem below_line {text : String} : Below depth (line deeper text) ↔ depth ≤ deeper :=
  List.forall_mem_singleton

@[simp] theorem below_item {content : Phrase} : Below depth (item deeper content) ↔ depth ≤ deeper :=
  List.forall_mem_singleton

private theorem below_map (h : depth ≤ deeper) (content : α → Phrase) (values : List α) :
    Below depth (values.map fun value => ⟨deeper, content value⟩) := by
  intro line hline
  obtain ⟨value, -, rfl⟩ := List.mem_map.mp hline
  exact h

private theorem below_lines (h : depth ≤ deeper) (texts : List String) : Below depth (lines deeper texts) :=
  below_map h Phrase.plain texts

private theorem below_field? (h : depth ≤ deeper) (label : String) (text : α → String) (value? : Option α) :
    Below depth (field? deeper label text value?) := by
  cases value? with
  | none => exact below_nil
  | some value => exact below_line.mpr h

private theorem below_generalNames (h : depth ≤ deeper) (names : List GeneralName) :
    Below depth (GeneralName.outline deeper names) :=
  below_map h GeneralName.phrase names

private theorem filter_of_below (h : Below 1 front) : front.filter (·.depth = 0) = [] := by
  rw [List.filter_eq_nil_iff]
  intro line hline
  have hdepth := h line hline
  simp only [decide_eq_true_eq]
  omega

end Outline

open Outline

/-! ### Blocks -/

namespace Numbering

variable {α : Type} {numbering : Numbering} {block : Nat → α → Outline} {lines : Outline}

private theorem map_renumber_of_unopened (h : ∀ line ∈ lines, numbering.opening? line.depth = none) (number : Nat) :
    lines.map (numbering.renumber number) = lines := by
  rw [List.map_congr_left (g := id), List.map_id]
  intro line hline
  simp only [renumber, h line hline, id]

private theorem map_renumber_of_below (h : lines.Below 2) (number : Nat) :
    lines.map (numbering.renumber number) = lines :=
  map_renumber_of_unopened (fun line hline => opening?_of_two_le (h line hline)) number

private theorem counts_heading : numbering.Counts fun number (_ : α) => line 0 (numbering.heading number) where
  renumber number _ := renumber_title number
  heading _ _ := rfl

/-- More lines below the heading. -/
private theorem Counts.append (h : numbering.Counts block) {body : Nat → α → Outline}
    (hrenumber : ∀ number value, (body 1 value).map (numbering.renumber number) = body number value)
    (hbelow : ∀ number value, (body number value).Below 1) :
    numbering.Counts fun number value => block number value ++ body number value where
  renumber number value := by
    rw [List.map_append, h.renumber, hrenumber]
  heading number value := by
    rw [List.filter_append, h.heading, filter_of_below (hbelow number value), List.append_nil]

/-- More lines below the heading, where no line below a heading has a number. -/
private theorem Counts.append_below (h : numbering.Counts block) (hinner : numbering.inner? = none) {body : α → Outline}
    (hbelow : ∀ value, (body value).Below 1) :
    numbering.Counts fun number value => block number value ++ body value := by
  refine h.append (fun number value => map_renumber_of_unopened (fun line hline => ?_) number) fun _ => hbelow
  exact opening?_of_inner hinner (hbelow value line hline)

/-- What is made of the blocks of a list can be made of the first ones, which are then renumbered. -/
private theorem Counts.mapIdx_renumber {β : Type} (h : numbering.Counts block) (f : Outline → β) (values : List α) :
    ((values.map (block 1)).mapIdx fun i first => f (first.map (numbering.renumber (i + 1)))) =
      values.mapIdx fun i value => f (block (i + 1) value) := by
  apply List.ext_getElem?
  intro i
  simp only [List.getElem?_mapIdx, List.getElem?_map, Option.map_map, Function.comp_def, h.renumber]

theorem Counts.headings (h : numbering.Counts block) (values : List α) :
    (values.mapIdx fun i value => (block (i + 1) value).filter (·.depth = 0)).flatten =
      (List.range values.length).map fun i => ⟨0, .plain (numbering.heading (i + 1))⟩ := by
  simp only [h.heading]
  rw [List.range_eq_range', ← List.zipIdx_map_snd, List.mapIdx_eq_zipIdx_map, List.map_map, ← List.flatMap_def,
    List.map_eq_flatMap]
  rfl

end Numbering

private theorem AccessDescription.counts_outline (title : String) :
    Numbering.Counts { title } (AccessDescription.outline title) := by
  refine .append_below (.append_below (.append_below Numbering.counts_heading rfl ?_) rfl ?_) rfl ?_
  all_goals
    intro description
    simp

private theorem DistributionPointName.below_outline (name : DistributionPointName) : (name.outline 1).Below 1 := by
  cases name with
  | full names => simp [DistributionPointName.outline, below_generalNames]
  | relative attrs => simp [DistributionPointName.outline, below_lines]

private theorem DistributionPoint.counts_outline (title : String) :
    Numbering.Counts { title } (DistributionPoint.outline title) := by
  refine .append_below (.append_below (.append_below Numbering.counts_heading rfl ?_) rfl ?_) rfl ?_
  · intro point
    cases point.name? with
    | none => exact below_nil
    | some name => exact name.below_outline
  · intro point
    cases point.reasons? with
    | none => exact below_nil
    | some reasons => simp [below_lines]
  · intro point
    cases point.issuer? with
    | none => exact below_nil
    | some names => simp [below_generalNames]

private theorem PolicyMapping.counts_outline :
    Numbering.Counts { title := "Policy Mapping" } PolicyMapping.outline := by
  refine .append_below (.append_below Numbering.counts_heading rfl ?_) rfl ?_
  all_goals
    intro mapping
    simp

private theorem QualifiedStatement.below_bodyOutline (statement : QualifiedStatement) :
    statement.bodyOutline.Below 1 := by
  cases statement with
  | edition second information? =>
    cases information? with
    | none => simp [bodyOutline]
    | some information =>
      obtain ⟨semantics?, authorities?⟩ := information
      cases authorities? <;>
        simp [bodyOutline, SemanticsInformation.outline, below_field?, below_generalNames]
  | limit value => simp [bodyOutline, MonetaryValue.outline]
  | disclosure | kinds => simp [bodyOutline, below_lines]
  | compliance | secureDevice | retention | other => simp [bodyOutline]

private theorem QualifiedStatement.counts_outline :
    Numbering.Counts { title := "QC Statement" } QualifiedStatement.outline :=
  .append_below Numbering.counts_heading rfl QualifiedStatement.below_bodyOutline

private theorem BiometricData.counts_outline :
    Numbering.Counts { title := "Biometric Data", close := "]" } BiometricData.outline := by
  refine .append_below (.append_below (.append_below (.append_below Numbering.counts_heading rfl ?_) rfl ?_) rfl ?_)
    rfl ?_
  all_goals
    intro data
    simp [below_field?]

private theorem MailCapability.counts_outline :
    Numbering.Counts { title := "S/MIME Capability" } MailCapability.outline := by
  refine .append_below (.append_below Numbering.counts_heading rfl ?_) rfl ?_
  · intro capability
    simp
  · intro capability
    split <;> simp

/-! ### Policies -/

private theorem PolicyQualifier.below_outline (qualifier : PolicyQualifier) : qualifier.outline.Below 2 := by
  cases qualifier with
  | pointer uri => simp [outline]
  | notice shown =>
    obtain ⟨reference?, text?⟩ := shown
    cases reference? <;>
      simp [outline, UserNotice.outline, NoticeReference.outline, below_field?]
  | other id elements =>
    rw [outline]
    split <;> simp

namespace PolicyInformation

def numbering : Numbering :=
  { title := "Certificate Policy", inner? := some "Policy Qualifier Information" }

private theorem map_renumber_qualifierOutline (number inner : Nat) (qualifier : PolicyQualifier) :
    (qualifierOutline 1 inner qualifier).map (numbering.renumber number) = qualifierOutline number inner qualifier := by
  have hheading := Numbering.renumber_heading
    (show numbering.opening? 1 = some "Policy Qualifier Information [" from rfl) number
    ("," ++ toString inner ++ "]:")
  rw [qualifierOutline, qualifierOutline, List.map_append, Numbering.map_renumber_of_below qualifier.below_outline]
  simpa only [String.append_assoc] using congrArg (· ++ qualifier.outline) hheading

private theorem counts_outline : numbering.Counts outline := by
  refine .append (.append Numbering.counts_heading (fun number information => ?_) ?_) (fun number information => ?_) ?_
  · have hopening : numbering.opening? 1 = some "Policy Qualifier Information [" := rfl
    refine Numbering.renumber_of_not_heading hopening ?_ number
    rw [String.toList_append, String.toList_append]
    rfl
  · simp
  · unfold numbered
    rw [List.map_flatMap]
    simp only [map_renumber_qualifierOutline]
  · intro number information line hline
    obtain ⟨⟨qualifier, inner⟩, -, hline⟩ := List.mem_flatMap.mp hline
    have hbelow := qualifier.below_outline.mono (show 1 ≤ 2 by decide)
    exact below_append.mpr ⟨below_line.mpr (Nat.le_refl 1), hbelow⟩ line hline

end PolicyInformation

/-! ### Lists -/

/-- The numbering of the types that are shown as numbered lists. -/
def ExtensionType.numbering? : ExtensionType → Option Numbering
  | .authorityInformationAccess => some { title := "Authority Information Access" }
  | .subjectInformationAccess => some { title := "Subject Information Access" }
  | .crlDistributionPoints => some { title := "CRL Distribution Point" }
  | .freshestCrl => some { title := "Freshest CRL Distribution Point" }
  | .certificatePolicies => some PolicyInformation.numbering
  | .policyMappings => some { title := "Policy Mapping" }
  | .qcStatements => some { title := "QC Statement" }
  | .biometricInfo => some { title := "Biometric Data", close := "]" }
  | .smimeCapabilities => some { title := "S/MIME Capability" }
  | _ => none

variable {type : ExtensionType} {numbering : Numbering}

private theorem ExtensionType.presentation_of_numbering? (h : type.numbering? = some numbering) :
    ∃ (α : Type) (item : TaggedType α) (block : Nat → α → Outline),
      type.presentation = .ofType (.sequenceOf item.schema) (numbered block) ∧ numbering.Counts block := by
  cases type with
  | authorityInformationAccess | subjectInformationAccess =>
    cases h
    exact ⟨_, AccessDescription.taggedType, _, rfl, AccessDescription.counts_outline _⟩
  | crlDistributionPoints | freshestCrl =>
    cases h
    exact ⟨_, DistributionPoint.taggedType, _, rfl, DistributionPoint.counts_outline _⟩
  | certificatePolicies =>
    cases h
    exact ⟨_, PolicyInformation.taggedType, _, rfl, PolicyInformation.counts_outline⟩
  | policyMappings =>
    cases h
    exact ⟨_, PolicyMapping.taggedType, _, rfl, PolicyMapping.counts_outline⟩
  | qcStatements =>
    cases h
    exact ⟨_, QualifiedStatement.taggedType, _, rfl, QualifiedStatement.counts_outline⟩
  | biometricInfo =>
    cases h
    exact ⟨_, BiometricData.taggedType, _, rfl, BiometricData.counts_outline⟩
  | smimeCapabilities =>
    cases h
    exact ⟨_, MailCapability.taggedType, _, rfl, MailCapability.counts_outline⟩
  | _ => cases h

variable {α : Type} {item : TaggedType α} {block : Nat → α → Outline} {octets : List UInt8}
  {elements : List (List UInt8)}

namespace Presentation

private theorem body_numbered (h : ∀ element ∈ elements, element ∈ anyElement)
    (hoctets : octets ∈ sequenceOfElements elements) (hlt : octets.length < wordLimit) :
    (ofType (.sequenceOf item.schema) (numbered block)).body octets =
      (elements.mapM item.schema.alone).map fun values => .outline (numbered block values) := by
  have hwhole : (TaggedType.sequenceOf item.schema).schema.whole octets = elements.mapM item.schema.alone :=
    TaggedType.whole_sequenceOf h hoctets hlt
  simp only [ofType, body, Schema.whole_map, hwhole]
  cases elements.mapM item.schema.alone <;> rfl

theorem body_single {element : List UInt8} (h : element ∈ anyElement) (hoctets : octets ∈ sequenceOfElements [element])
    (hlt : octets.length < wordLimit) :
    (ofType (.sequenceOf item.schema) (numbered block)).body octets =
      (item.schema.alone element).map fun value => .outline (block 1 value) := by
  rw [body_numbered (List.forall_mem_singleton.mpr h) hoctets hlt, List.mapM_cons, List.mapM_nil]
  cases item.schema.alone element with
  | error fault => rfl
  | ok value =>
    have hnumbered : numbered block [value] = block 1 value := List.append_nil _
    exact congrArg (fun lines => Except.ok (ExtensionBody.outline lines)) hnumbered

end Presentation

namespace Extension

/-- The value is a sequence of the elements, and the identifier that of the type. -/
structure ListsElements (extension : Extension) (type : ExtensionType) (elements : List (List UInt8)) : Prop where
  type_eq : extension.type? = some type
  each_mem : ∀ element ∈ elements, element ∈ anyElement
  value_mem : extension.value ∈ leaf .octetString (sequenceOfElements elements)
  length_lt : extension.value.length < wordLimit

variable {extension : Extension}

private theorem ListsElements.exists_octets (h : extension.ListsElements type elements) :
    ∃ octets ∈ sequenceOfElements elements, octets.length < wordLimit ∧
      extension.body = type.presentation.body octets := by
  obtain ⟨octets, hmem, hlt, hoctets⟩ := octets_of_mem h.value_mem h.length_lt
  refine ⟨octets, hmem, hlt, ?_⟩
  rw [Extension.body, hoctets, presentation, h.type_eq]

private theorem exists_text_iff {style : LayoutStyle} :
    (∃ text, extension.text style = .ok text) ↔ ∃ body, extension.body = .ok body := by
  unfold text
  cases extension.body <;> simp [Except.map]

/-- A list of items that are shown in numbered blocks has a text just if each of its elements has one as the only
element of a list. The text is then that of the blocks of the single elements, behind each other and with their
places in the list for numbers, and the headings count from one on. -/
theorem numberedList_text (hnumbering : type.numbering? = some numbering) (h : extension.ListsElements type elements)
    {singles : List Extension}
    (hsingles : List.Forall₂ (fun single element => single.ListsElements type [element]) singles elements)
    (style : LayoutStyle) :
    ((∃ text, extension.text style = .ok text) ↔ ∀ single ∈ singles, ∃ text, single.text style = .ok text) ∧
      ∀ text, extension.text style = .ok text →
        ∃ blocks : List Outline,
          List.Forall₂ (fun single block => single.body = .ok (.outline block)) singles blocks ∧
          text = String.join
            (blocks.mapIdx fun i block => Outline.layOut style (block.map (numbering.renumber (i + 1)))) ∧
          (blocks.mapIdx fun i block => (block.map (numbering.renumber (i + 1))).filter (·.depth = 0)).flatten =
            (List.range elements.length).map fun i => ⟨0, .plain (numbering.heading (i + 1))⟩ := by
  obtain ⟨α, item, block, hpresentation, hcounts⟩ := ExtensionType.presentation_of_numbering? hnumbering
  have hbody : extension.body =
      (elements.mapM item.schema.alone).map fun values => .outline (numbered block values) := by
    obtain ⟨octets, hoctets, hlt, hbody⟩ := h.exists_octets
    rw [hbody, hpresentation, Presentation.body_numbered h.each_mem hoctets hlt]
  have hbodies : singles.mapM (·.body) =
      (elements.mapM item.schema.alone).map (List.map fun value => .outline (block 1 value)) := by
    refine Reader.mapM_eq_map (hsingles.imp fun single element hsingle => ?_)
    obtain ⟨octets, hoctets, hlt, hbody⟩ := hsingle.exists_octets
    rw [hbody, hpresentation, Presentation.body_single (hsingle.each_mem element List.mem_cons_self) hoctets hlt]
  simp only [exists_text_iff, ← Reader.exists_mapM_eq_ok_iff, hbody, hbodies]
  cases hvalues : elements.mapM item.schema.alone with
  | error fault =>
    refine ⟨by simp [Except.map], fun text htext => ?_⟩
    rw [Extension.text, hbody, hvalues] at htext
    cases htext
  | ok values =>
    refine ⟨by simp [Except.map], fun text htext => ⟨values.map (block 1), ?_, ?_, ?_⟩⟩
    · rw [hvalues] at hbodies
      simpa only [List.forall₂_map_right_iff] using Reader.mapM_eq_ok_iff.mp hbodies
    · rw [Extension.text, hbody, hvalues] at htext
      cases htext
      change Outline.layOut style (numbered block values) = _
      rw [hcounts.mapIdx_renumber, numbered_eq, layOut_flatten, List.mapIdx_eq_zipIdx_map, List.mapIdx_eq_zipIdx_map,
        List.map_map]
      rfl
    · have hlength := (Reader.mapM_eq_ok_iff.mp hvalues).length_eq
      rw [hcounts.mapIdx_renumber, hcounts.headings, hlength]

theorem numberedList_text_twoPolicies :
    let first : List UInt8 := [48, 12, 6, 2, 42, 3, 48, 6, 48, 4, 6, 2, 42, 4]
    let second : List UInt8 := [48, 4, 6, 2, 42, 5]
    let list : Extension := ⟨"2.5.29.32", false, [4, 22, 48, 20] ++ first ++ second⟩
    let firstAlone : Extension := ⟨"2.5.29.32", true, [4, 16, 48, 14] ++ first⟩
    let secondAlone : Extension := ⟨"2.5.29.32", false, [4, 8, 48, 6] ++ second⟩
    list.ListsElements .certificatePolicies [first, second] ∧
      firstAlone.ListsElements .certificatePolicies [first] ∧ secondAlone.ListsElements .certificatePolicies [second] ∧
      list.text ⟨false, " "⟩ = .ok ("Certificate Policy [1]:\n Policy Identifier: 1.2.3\n" ++
        " Policy Qualifier Information [1,1]:\n  1.2.4\nCertificate Policy [2]:\n Policy Identifier: 1.2.5\n") := by
  intro first second list firstAlone secondAlone
  have hfirst : IsElement .sequence true (first.drop 2) first := isElement_make (by decide) .sequence true
  have hsecond : IsElement .sequence true (second.drop 2) second := isElement_make (by decide) .sequence true
  have hlist : list.ListsElements .certificatePolicies [first, second] :=
    ⟨rfl, by simp [mem_anyElement hfirst, mem_anyElement hsecond],
      make_mem_leaf (make_mem_sequenceOfElements (by decide)) (by decide) .octetString, by decide⟩
  have hfirstAlone : firstAlone.ListsElements .certificatePolicies [first] :=
    ⟨rfl, by simp [mem_anyElement hfirst],
      make_mem_leaf (make_mem_sequenceOfElements (by decide)) (by decide) .octetString, by decide⟩
  have hsecondAlone : secondAlone.ListsElements .certificatePolicies [second] :=
    ⟨rfl, by simp [mem_anyElement hsecond],
      make_mem_leaf (make_mem_sequenceOfElements (by decide)) (by decide) .octetString, by decide⟩
  have hfirstBody : firstAlone.body = .ok (.outline (line 0 "Certificate Policy [1]:" ++
      line 1 "Policy Identifier: 1.2.3" ++ line 1 "Policy Qualifier Information [1,1]:" ++ line 2 "1.2.4")) := rfl
  have hsecondBody : secondAlone.body = .ok (.outline (line 0 "Certificate Policy [1]:" ++
      line 1 "Policy Identifier: 1.2.5")) := rfl
  refine ⟨hlist, hfirstAlone, hsecondAlone, ?_⟩
  obtain ⟨hiff, htext⟩ :=
    numberedList_text rfl hlist (.cons hfirstAlone (.cons hsecondAlone .nil)) ⟨false, " "⟩
  obtain ⟨text, hlistText⟩ := hiff.mpr (by simp [exists_text_iff, hfirstBody, hsecondBody])
  obtain ⟨blocks, hblocks, rfl, -⟩ := htext text hlistText
  rw [hlistText]
  cases hblocks with
  | cons hfirstBlock hblocks =>
    cases hblocks with
    | cons hsecondBlock hblocks =>
      cases hblocks
      cases hfirstBody.symm.trans hfirstBlock
      cases hsecondBody.symm.trans hsecondBlock
      decide +kernel

end Extension

end CertExtensions
