import CertExtensions.Proofs.Extension.NameLines
import CertExtensions.Proofs.Extension.Rendering
import CertExtensions.Proofs.GeneralName.Encoding
import CertExtensions.Proofs.GeneralName.Shape

/-!
# Texts of statements about qualified certificates

What follows the identifier of a statement depends on the identifier. `QualifiedStatement.bodyEncodings` says what
follows for each statement, and `QualifiedStatement.bodyShape` what may follow an identifier at all: nothing behind those
that only declare something, one element of a given shape behind most of the others. `Extension.statements_text` says
that the text of encoded statements has the lines of the statements, and that there is no text where one of them has
another shape.
-/

open Computability

namespace CertExtensions

open Asn1 Reader

/-! ### Encodings -/

/-- Letters, or the digits of a number. -/
def MonetaryValue.currencyEncodings (currency : String) : Language UInt8 :=
  {bytes | bytes ∈ leaf .printableString (printableContents currency) ∨
    ∃ n : Nat, toString n = currency ∧ bytes ∈ leaf .integer (uint64Contents n)}

def MonetaryValue.encodings (value : MonetaryValue) : Language UInt8 :=
  node .sequence (currencyEncodings value.currency *
    (leaf .integer (int64Contents value.amount) * leaf .integer (int64Contents value.exponent)))

def SemanticsInformation.encodings (information : SemanticsInformation) : Language UInt8 :=
  node .sequence (optionally (fun id => leaf .objectIdentifier (objectIdContents id)) information.semantics? *
    optionally GeneralName.listEncodings information.authorities?)

def DisclosureStatement.encodings (statement : DisclosureStatement) : Language UInt8 :=
  node .sequence (leaf .ia5String (asciiContents statement.url) * texts statement.language)

namespace QualifiedStatement

/-- The identifiers of the kinds that are known. -/
def knownIds : List ObjectId :=
  [firstEdition, secondEdition, european 1, european 2, european 3, european 4, european 5, european 6]

def identifier : QualifiedStatement → ObjectId
  | .edition second _ => if second then secondEdition else firstEdition
  | .compliance => european 1
  | .limit _ => european 2
  | .retention _ => european 3
  | .secureDevice => european 4
  | .disclosure _ => european 5
  | .kinds _ => european 6
  | .other id _ => id

/-- What follows the identifier of a statement; any elements may follow one that is not known. -/
def bodyEncodings : QualifiedStatement → Language UInt8
  | .edition _ information? => optionally SemanticsInformation.encodings information?
  | .compliance | .secureDevice => 1
  | .limit value => value.encodings
  | .retention years => leaf .integer (int64Contents years)
  | .disclosure statements => node .sequence (each DisclosureStatement.encodings statements)
  | .kinds ids => node .sequence (each (fun id => leaf .objectIdentifier (objectIdContents id)) ids)
  | .other id elements => if id ∈ knownIds then 0 else verbatim someElement∗ elements

def encodings (statement : QualifiedStatement) : Language UInt8 :=
  node .sequence (leaf .objectIdentifier (objectIdContents statement.identifier) * statement.bodyEncodings)

def listEncodings (statements : List QualifiedStatement) : Language UInt8 :=
  node .sequence (each encodings statements)

end QualifiedStatement

/-! ### Reading -/

private theorem MonetaryValue.finds_currencySchema : currencySchema.Finds currencyEncodings := by
  intro currency front hfront hlt rest
  rcases hfront with hfront | ⟨n, rfl, hfront⟩
  · exact Schema.read_choice_of_found rfl (finds_printableString hfront hlt rest)
  · have hread : (uint64.map toString).schema.read (front ++ rest) = .found (toString n) rest :=
      TaggedType.read_map_eq_found_iff.mpr ⟨n, finds_uint64 hfront hlt rest, rfl⟩
    exact Schema.read_choice_of_found rfl hread

private theorem MonetaryValue.finds : MonetaryValue.taggedType.schema.Finds MonetaryValue.encodings := by
  refine TaggedType.finds_sequence fun value content hcontent hlt => ?_
  obtain ⟨currency, hcurrency, _, hnumbers, rfl⟩ := Language.mem_mul.mp hcontent
  obtain ⟨amount, hamount, exponent, hexponent, rfl⟩ := Language.mem_mul.mp hnumbers
  simp only [List.length_append] at hlt
  refine (bind_of_ok (finds_currencySchema.required hcurrency (by omega) _)).trans ?_
  refine (bind_of_ok (finds_int64.required hamount (by omega) exponent)).trans ?_
  exact bind_of_ok (finds_int64.required_last hexponent (by omega))

private theorem SemanticsInformation.finds :
    SemanticsInformation.taggedType.schema.Finds SemanticsInformation.encodings := by
  refine TaggedType.finds_sequence fun information content hcontent hlt => ?_
  obtain ⟨id, hid, names, hnames, rfl⟩ := Language.mem_mul.mp hcontent
  rw [List.length_append] at hlt
  have findsNames := TaggedType.finds_sequenceOf GeneralName.finds
  have hpasses : objectId.schema.Passes names :=
    findsNames.passes_optionally_last (TaggedType.apart rfl) hnames (by omega)
  refine (bind_of_ok (finds_objectId.optional hid (by omega) hpasses)).trans ?_
  exact bind_of_ok (findsNames.optional_last hnames (by omega))

private theorem DisclosureStatement.finds :
    DisclosureStatement.taggedType.schema.Finds DisclosureStatement.encodings := by
  refine TaggedType.finds_sequence fun statement content hcontent hlt => ?_
  obtain ⟨url, hurl, language, hlanguage, rfl⟩ := Language.mem_mul.mp hcontent
  rw [List.length_append] at hlt
  refine (bind_of_ok (finds_ia5String.required hurl (by omega) language)).trans ?_
  exact bind_of_ok (finds_anyString.required_last hlanguage (by omega))

namespace QualifiedStatement

theorem body_of_unknown {id : ObjectId} (h : id ∉ knownIds) :
    body id = remaining >>= fun elements => pure (.other id elements) := by
  simp only [knownIds, List.mem_cons, List.not_mem_nil, or_false, not_or] at h
  obtain ⟨hfirst, hsecond, h1, h2, h3, h4, h5, h6⟩ := h
  rw [body, if_neg hfirst, if_neg hsecond, if_neg h1, if_neg h2, if_neg h3, if_neg h4, if_neg h5, if_neg h6]

private theorem body_of_mem (statement : QualifiedStatement) {content : List UInt8}
    (h : content ∈ statement.bodyEncodings)
    (hlt : content.length < wordLimit) : body statement.identifier content = .ok (statement, []) := by
  cases statement with
  | edition second information? =>
    cases second <;> exact bind_of_ok (SemanticsInformation.finds.optional_last h hlt)
  | compliance | secureDevice =>
    obtain rfl := (Language.mem_one content).mp h
    rfl
  | limit value => exact bind_of_ok (MonetaryValue.finds.required_last h hlt)
  | retention years => exact bind_of_ok (finds_int64.required_last h hlt)
  | disclosure statements =>
    exact bind_of_ok ((TaggedType.finds_sequenceOf DisclosureStatement.finds).required_last h hlt)
  | kinds ids => exact bind_of_ok ((TaggedType.finds_sequenceOf finds_objectId).required_last h hlt)
  | other id elements =>
    rw [bodyEncodings] at h
    split at h
    · exact absurd h (Language.notMem_zero content)
    · next hunknown =>
      obtain ⟨rfl, helements⟩ := h
      rw [identifier, body_of_unknown hunknown]
      exact bind_of_ok (remaining_of_mem helements hlt)

private theorem finds : taggedType.schema.Finds encodings := by
  refine TaggedType.finds_sequence fun statement content hcontent hlt => ?_
  obtain ⟨id, hid, front, hbody, rfl⟩ := Language.mem_mul.mp hcontent
  rw [List.length_append] at hlt
  refine (bind_of_ok (finds_objectId.required hid (by omega) front)).trans ?_
  exact statement.body_of_mem hbody (by omega)

end QualifiedStatement

/-! ### Shapes -/

def MonetaryValue.currencyShape : Language UInt8 := ⨆ form ∈ [uint64Shape, leaf .printableString ⊤], form

def MonetaryValue.shape : Language UInt8 := node .sequence (currencyShape * (int64Shape * int64Shape))

def SemanticsInformation.shape : Language UInt8 :=
  node .sequence ((1 + objectIdShape) * (1 + node .sequence GeneralName.shape∗))

def DisclosureStatement.shape : Language UInt8 := node .sequence (leaf .ia5String asciiShape * textShape)

/-- What may follow the identifier. -/
def QualifiedStatement.bodyShape (id : ObjectId) : Language UInt8 :=
  if id = firstEdition ∨ id = secondEdition then 1 + SemanticsInformation.shape
  else if id = european 1 ∨ id = european 4 then 1
  else if id = european 2 then MonetaryValue.shape
  else if id = european 3 then int64Shape
  else if id = european 5 then node .sequence DisclosureStatement.shape∗
  else if id = european 6 then node .sequence objectIdShape∗
  else someElement∗

private theorem MonetaryValue.findsOnly : MonetaryValue.taggedType.schema.FindsOnly MonetaryValue.shape := by
  have hcurrency : currencySchema.FindsOnly currencyShape := Schema.findsOnly_choice_forms
    (.cons (TaggedType.findsOnly_map findsOnly_uint64 toString) (.cons findsOnly_printableString .nil))
  exact TaggedType.findsOnly_sequence (hcurrency.required.bind fun _ => findsOnly_int64.required.bind fun _ =>
    findsOnly_int64.required.bind_pure _)

private theorem SemanticsInformation.findsOnly :
    SemanticsInformation.taggedType.schema.FindsOnly SemanticsInformation.shape :=
  TaggedType.findsOnly_sequence (findsOnly_objectId.optional.bind fun _ =>
    (TaggedType.findsOnly_sequenceOf GeneralName.findsOnly).optional.bind_pure _)

private theorem DisclosureStatement.findsOnly :
    DisclosureStatement.taggedType.schema.FindsOnly DisclosureStatement.shape :=
  TaggedType.findsOnly_sequence (findsOnly_ia5String.required.bind fun _ => findsOnly_anyString.required.bind_pure _)

namespace QualifiedStatement

private theorem bodyShape_of_unknown {id : ObjectId} (h : id ∉ knownIds) : bodyShape id = someElement∗ := by
  simp only [knownIds, List.mem_cons, List.not_mem_nil, or_false, not_or] at h
  obtain ⟨hfirst, hsecond, h1, h2, h3, h4, h5, h6⟩ := h
  rw [bodyShape, if_neg (not_or.mpr ⟨hfirst, hsecond⟩), if_neg (not_or.mpr ⟨h1, h4⟩), if_neg h2, if_neg h3, if_neg h5,
    if_neg h6]

private theorem takesOnly_body (id : ObjectId) : Fields.TakesOnly (body id) (bodyShape id) := by
  by_cases h : id ∈ knownIds
  · simp only [knownIds, List.mem_cons, List.not_mem_nil, or_false] at h
    rcases h with rfl | rfl | rfl | rfl | rfl | rfl | rfl | rfl
    · exact SemanticsInformation.findsOnly.optional.bind_pure _
    · exact SemanticsInformation.findsOnly.optional.bind_pure _
    · exact Fields.TakesOnly.pure compliance
    · exact MonetaryValue.findsOnly.required.bind_pure _
    · exact findsOnly_int64.required.bind_pure _
    · exact Fields.TakesOnly.pure secureDevice
    · exact (TaggedType.findsOnly_sequenceOf DisclosureStatement.findsOnly).required.bind_pure _
    · exact (TaggedType.findsOnly_sequenceOf findsOnly_objectId).required.bind_pure _
  · rw [body_of_unknown h, bodyShape_of_unknown h]
    exact takesOnly_remaining.bind_pure _

private theorem make_mem_encodings {statement : QualifiedStatement} {id content : List UInt8}
    (hid : ObjectId.decode id = .ok statement.identifier) (hcontent : content ∈ statement.bodyEncodings)
    (hidLength : id.length < wordLimit)
    (hlt : ((Element.make .objectIdentifier false id).encoding ++ content).length < wordLimit) :
    (Element.make .sequence true ((Element.make .objectIdentifier false id).encoding ++ content)).encoding ∈
      statement.encodings :=
  make_mem_node (Language.append_mem_mul (make_mem_objectId hid hidLength) hcontent) hlt .sequence

/-- A statement is refused if what follows its identifier has another shape. -/
private theorem refuses_of_body {id : ObjectId} {front : List UInt8} (hfront : front ∉ bodyShape id)
    {element : List UInt8} (h : element ∈ node .sequence (leaf .objectIdentifier (objectIdContents id) * {front})) :
    taggedType.schema.Refuses element := by
  obtain ⟨_, hcontent, helement⟩ := mem_node.mp h
  obtain ⟨first, hid, back, hback, rfl⟩ := Language.mem_mul.mp hcontent
  obtain rfl : front = back := hback.symm
  refine ⟨.sequence, true, _, helement, fun hlt decode value hdecode hvalue => hfront ?_⟩
  cases hdecode
  have hlength := helement.length_content_lt
  rw [List.length_append] at hlength
  have hfields := Fields.exhaust_eq_ok_iff.mp hvalue
  have hfound := finds_objectId.required hid (by omega) front
  have hbody : body id front = .ok (value, []) := (bind_of_ok hfound).symm.trans hfields
  exact (takesOnly_body id).exhaust (Fields.exhaust_eq_ok_iff.mpr hbody)

end QualifiedStatement

/-! ### Lines -/

def SemanticsInformation.lines (linkUris : Bool) (information : SemanticsInformation) : List (Nat × String) :=
  (information.semantics?.toList.map fun id => (2, "Semantics Identifier: " ++ id.dotted)) ++
  information.authorities?.toList.flatMap fun names =>
    (2, "Name Registration Authorities:") :: names.map fun name => (3, name.display linkUris)

namespace QualifiedStatement

/-- The lines of a statement below its number. -/
def bodyLines (linkUris : Bool) : QualifiedStatement → List (Nat × String)
  | .edition second information? =>
    (1, if second then "QC Syntax V2" else "QC Syntax V1") ::
      information?.toList.flatMap (SemanticsInformation.lines linkUris)
  | .compliance => [(1, "QC Compliance")]
  | .secureDevice => [(1, "QC SSCD")]
  | .limit value => [
    (1, "QC EU Limit Value"),
    (2, "Currency: " ++ value.currency),
    (2, "Amount: " ++ toString value.amount),
    (2, "Exponent: " ++ toString value.exponent)]
  | .retention years => [(1, "QC Retention Period: " ++ toString years)]
  | .disclosure statements =>
    (1, "QC PKI Disclosure Statements") ::
      statements.map fun statement => (2, statement.url ++ " (" ++ statement.language ++ ")")
  | .kinds ids => (1, "QC Type") :: ids.map fun id => (2, id.nameIn ObjectId.qualifiedTypes)
  | .other id [] => [(1, id.dotted)]
  | .other id elements => [(1, id.dotted ++ ": " ++ Hex.numeral elements)]

/-- The lines of statements: the number of each, and what it says. -/
def lines (linkUris : Bool) (statements : List QualifiedStatement) : List (Nat × String) :=
  (statements.mapIdx fun i statement =>
    (0, "QC Statement [" ++ toString (i + 1) ++ "]:") :: statement.bodyLines linkUris).flatten

end QualifiedStatement

private theorem SemanticsInformation.contents_outline (linkUris : Bool) (information : SemanticsInformation) :
    information.outline.contents linkUris = information.lines linkUris := by
  obtain ⟨semantics?, authorities?⟩ := information
  cases authorities? <;> simp [SemanticsInformation.outline, SemanticsInformation.lines, GeneralName.contents_outline]

namespace QualifiedStatement

private theorem contents_bodyOutline (linkUris : Bool) (statement : QualifiedStatement) :
    statement.bodyOutline.contents linkUris = statement.bodyLines linkUris := by
  cases statement with
  | edition second information? =>
    cases information? <;> simp [bodyOutline, bodyLines, SemanticsInformation.contents_outline]
  | compliance | secureDevice | limit value | retention years => rfl
  | disclosure statements => simp [bodyOutline, bodyLines, DisclosureStatement.text]
  | kinds ids => simp [bodyOutline, bodyLines]
  | other id elements => cases elements <;> rfl

private theorem contents_listOutline (linkUris : Bool) (statements : List QualifiedStatement) :
    (listOutline statements).contents linkUris = lines linkUris statements := by
  simp [listOutline, lines, outline, contents_bodyOutline]

end QualifiedStatement

/-! ### Texts -/

namespace Extension

/-- The text of encoded statements has the lines of the statements and no others. There is no text if what follows the
identifier of a statement does not have its shape, wherever the statement is in the list. -/
theorem statements_text :
    (∀ (statements : List QualifiedStatement) (value : List UInt8) (critical : Bool) (style : LayoutStyle),
      value ∈ leaf .octetString (QualifiedStatement.listEncodings statements) → value.length < wordLimit →
      (⟨"1.3.6.1.5.5.7.1.3", critical, value⟩ : Extension).text style =
        .ok (indented style.indent (QualifiedStatement.lines style.linkUris statements))) ∧
    ∀ (id : ObjectId) (body value : List UInt8) (critical : Bool) (style : LayoutStyle),
      body ∉ QualifiedStatement.bodyShape id →
      value ∈ leaf .octetString (node .sequence ((⨆ tag, elementsOf tag)∗ *
        (node .sequence (leaf .objectIdentifier (objectIdContents id) * {body}) * ⊤))) →
      ∃ fault, (⟨"1.3.6.1.5.5.7.1.3", critical, value⟩ : Extension).text style = .error fault := by
  have htype : ∀ critical value,
      (⟨"1.3.6.1.5.5.7.1.3", critical, value⟩ : Extension).type? = some .qcStatements := fun _ _ =>
    ExtensionType.ofIdentifier?_identifier .qcStatements
  constructor
  · intro statements value critical style hvalue hlt
    have hfinds := TaggedType.finds_sequenceOf QualifiedStatement.finds
    have htext := text_of_mem (htype critical value) rfl hfinds hvalue hlt style
    rwa [QualifiedStatement.contents_listOutline] at htext
  · intro id body value critical style hbody hvalue
    refine text_of_unread (htype critical value) rfl (fun content hcontent => ?_) hvalue style
    exact TaggedType.sequenceOf_refuses (fun _ helement => QualifiedStatement.refuses_of_body hbody helement) hcontent

theorem statements_text_everyKind :
    let statements : List QualifiedStatement := [.edition true (some ⟨some ⟨[1, 2, 3]⟩, some [.dns "a"]⟩), .compliance,
      .limit ⟨"EUR", 5, -2⟩, .retention 7, .secureDevice, .disclosure [⟨"u", "en"⟩], .kinds [⟨[1, 2, 4]⟩],
      .other ⟨[1, 2, 5]⟩ [5, 0]]
    let value : List UInt8 := [4, 126, 48, 124, 48, 21, 6, 8, 43, 6, 1, 5, 5, 7, 11, 2, 48, 9, 6, 2, 42, 3, 48, 3, 130,
      1, 97, 48, 8, 6, 6, 4, 0, 142, 70, 1, 1, 48, 21, 6, 6, 4, 0, 142, 70, 1, 2, 48, 11, 19, 3, 69, 85, 82, 2, 1, 5,
      2, 1, 254, 48, 11, 6, 6, 4, 0, 142, 70, 1, 3, 2, 1, 7, 48, 8, 6, 6, 4, 0, 142, 70, 1, 4, 48, 19, 6, 6, 4, 0, 142,
      70, 1, 5, 48, 9, 48, 7, 22, 1, 117, 22, 2, 101, 110, 48, 14, 6, 6, 4, 0, 142, 70, 1, 6, 48, 4, 6, 2, 42, 4, 48, 6,
      6, 2, 42, 5, 5, 0]
    let extended : List UInt8 := [4, 24, 48, 22, 48, 8, 6, 6, 4, 0, 142, 70, 1, 4, 48, 10, 6, 6, 4, 0, 142, 70, 1, 1,
      5, 0]
    value ∈ leaf .octetString (QualifiedStatement.listEncodings statements) ∧ value.length < wordLimit ∧
      (⟨"1.3.6.1.5.5.7.1.3", false, value⟩ : Extension).text ⟨false, " "⟩ = .ok ("QC Statement [1]:\n QC Syntax V2\n" ++
        "  Semantics Identifier: 1.2.3\n  Name Registration Authorities:\n   DNS Name: a\n" ++
        "QC Statement [2]:\n QC Compliance\nQC Statement [3]:\n QC EU Limit Value\n  Currency: EUR\n  Amount: 5\n" ++
        "  Exponent: -2\nQC Statement [4]:\n QC Retention Period: 7\nQC Statement [5]:\n QC SSCD\n" ++
        "QC Statement [6]:\n QC PKI Disclosure Statements\n  u (en)\nQC Statement [7]:\n QC Type\n  1.2.4\n" ++
        "QC Statement [8]:\n 1.2.5: 0x0500\n") ∧
      [5, 0] ∉ QualifiedStatement.bodyShape (QualifiedStatement.european 1) ∧
      extended ∈ leaf .octetString (node .sequence ((⨆ tag, elementsOf tag)∗ * (node .sequence
        (leaf .objectIdentifier (objectIdContents (QualifiedStatement.european 1)) * {[5, 0]}) * ⊤))) ∧
      ∃ fault, (⟨"1.3.6.1.5.5.7.1.3", false, extended⟩ : Extension).text {} = .error fault := by
  intro statements value extended
  have hascii : ∀ text ∈ ["a", "u", "en"], ∀ c ∈ text.toList, c.toNat < 128 := by simp
  have hname : characterBytes "a" ∈ asciiContents "a" := ⟨hascii "a" (by decide), rfl⟩
  have hurl : characterBytes "u" ∈ asciiContents "u" := ⟨hascii "u" (by decide), rfl⟩
  have hcurrency : characterBytes "EUR" ∈ printableContents "EUR" := ⟨by simp, rfl⟩
  have hamount : [5] ∈ int64Contents 5 := ⟨by decide, by decide, singleton_mem_integerContents 5⟩
  have hexponent : [254] ∈ int64Contents (-2) := ⟨by decide, by decide, singleton_mem_integerContents 254⟩
  have hyears : [7] ∈ int64Contents 7 := ⟨by decide, by decide, singleton_mem_integerContents 7⟩
  have hid : ObjectId.decode [42, 3] = .ok ⟨[1, 2, 3]⟩ := rfl
  have hkind : ObjectId.decode [42, 4] = .ok ⟨[1, 2, 4]⟩ := rfl
  have hunknown : ObjectId.decode [42, 5] = .ok ⟨[1, 2, 5]⟩ := rfl
  have heuropean : ∀ arc ∈ [1, 2, 3, 4, 5, 6], ObjectId.decode [4, 0, 142, 70, 1, UInt8.ofNat arc] =
      .ok (QualifiedStatement.european arc) := by decide
  have hsecond : ObjectId.decode [43, 6, 1, 5, 5, 7, 11, 2] = .ok QualifiedStatement.secondEdition := rfl
  have hnull : IsElement .null false [] [5, 0] := ⟨[0], .short (by decide), rfl⟩
  -- what follows the identifiers
  have hnames : _ ∈ GeneralName.listEncodings [.dns "a"] := make_mem_node
    (Language.append_mem_mul (make_mem_leaf hname (by decide) (.context 2)) Language.nil_mem_one) (by decide) .sequence
  have hinformation : _ ∈ SemanticsInformation.encodings ⟨some ⟨[1, 2, 3]⟩, some [.dns "a"]⟩ :=
    make_mem_node (Language.append_mem_mul (make_mem_objectId hid (by decide)) hnames) (by decide) .sequence
  have hnumbers := Language.append_mem_mul (make_mem_leaf hamount (by decide) .integer)
    (make_mem_leaf hexponent (by decide) .integer)
  have hlimit : _ ∈ MonetaryValue.encodings ⟨"EUR", 5, -2⟩ := make_mem_node (Language.append_mem_mul
    (.inl (make_mem_leaf hcurrency (by decide) .printableString)) hnumbers) (by decide) .sequence
  have hdisclosure : _ ∈ DisclosureStatement.encodings ⟨"u", "en"⟩ := make_mem_node
    (Language.append_mem_mul (make_mem_leaf hurl (by decide) .ia5String)
      (make_mem_texts (hascii "en" (by decide)) (by decide))) (by decide) .sequence
  have hdisclosures := make_mem_node (Language.append_mem_mul hdisclosure Language.nil_mem_one) (by decide) .sequence
  have hkinds := make_mem_node (Language.append_mem_mul (make_mem_objectId hkind (by decide)) Language.nil_mem_one)
    (by decide) .sequence
  have helements : [5, 0] ∈ QualifiedStatement.bodyEncodings (.other ⟨[1, 2, 5]⟩ [5, 0]) := by
    rw [QualifiedStatement.bodyEncodings, if_neg (by decide)]
    exact ⟨rfl, mem_kstar_of_mem (mem_someElement_of_isElement hnull (by decide) (by decide))⟩
  -- the statements
  have heach : _ ∈ each QualifiedStatement.encodings statements :=
    Language.append_mem_mul
      (QualifiedStatement.make_mem_encodings hsecond hinformation (by decide) (by decide)) <|
    Language.append_mem_mul
      (QualifiedStatement.make_mem_encodings (heuropean 1 (by decide)) Language.nil_mem_one (by decide) (by decide)) <|
    Language.append_mem_mul
      (QualifiedStatement.make_mem_encodings (heuropean 2 (by decide)) hlimit (by decide) (by decide)) <|
    Language.append_mem_mul (QualifiedStatement.make_mem_encodings (heuropean 3 (by decide))
      (make_mem_leaf hyears (by decide) .integer) (by decide) (by decide)) <|
    Language.append_mem_mul
      (QualifiedStatement.make_mem_encodings (heuropean 4 (by decide)) Language.nil_mem_one (by decide) (by decide)) <|
    Language.append_mem_mul
      (QualifiedStatement.make_mem_encodings (heuropean 5 (by decide)) hdisclosures (by decide) (by decide)) <|
    Language.append_mem_mul
      (QualifiedStatement.make_mem_encodings (heuropean 6 (by decide)) hkinds (by decide) (by decide)) <|
    Language.append_mem_mul
      (QualifiedStatement.make_mem_encodings hunknown helements (by decide) (by decide)) Language.nil_mem_one
  have hencoded := make_mem_leaf (make_mem_node heach (by decide +kernel) .sequence) (by decide +kernel) .octetString
  have hvalue : value ∈ leaf .octetString (QualifiedStatement.listEncodings statements) :=
    (congrArg (· ∈ leaf .octetString (QualifiedStatement.listEncodings statements)) (by decide +kernel)).mp hencoded
  have hlt : value.length < wordLimit := by decide +kernel
  -- an element behind the identifier of a statement that only declares something
  have hnone : [5, 0] ∉ QualifiedStatement.bodyShape (QualifiedStatement.european 1) := by
    rw [QualifiedStatement.bodyShape, if_neg (by decide), if_pos (by decide), Language.mem_one]
    exact List.cons_ne_nil 5 [0]
  have hbehind : [5, 0] ∈ ({[5, 0]} : Language UInt8) := rfl
  have hfront : [48, 8, 6, 6, 4, 0, 142, 70, 1, 4] ∈ (⨆ tag, elementsOf tag)∗ :=
    mem_kstar_of_mem <| Language.mem_iSup.mpr
      ⟨.sequence, true, [6, 6, 4, 0, 142, 70, 1, 4], [8], .short (by decide), rfl⟩
  have hextra := make_mem_node (Language.append_mem_mul
    (make_mem_objectId (heuropean 1 (by decide)) (by decide)) hbehind) (by decide) .sequence
  have hextended : extended ∈ leaf .octetString (node .sequence ((⨆ tag, elementsOf tag)∗ * (node .sequence
      (leaf .objectIdentifier (objectIdContents (QualifiedStatement.european 1)) * {[5, 0]}) * ⊤))) :=
    make_mem_leaf (make_mem_node (Language.append_mem_mul hfront (Language.append_mem_mul hextra
      (show [] ∈ (⊤ : Language UInt8) from trivial))) (by decide) .sequence) (by decide) .octetString
  obtain ⟨htext, hrefused⟩ := statements_text
  exact ⟨hvalue, hlt, (htext statements value false ⟨false, " "⟩ hvalue hlt).trans (by decide +kernel), hnone,
    hextended, hrefused _ _ extended false {} hnone hextended⟩

/-- An element with a tag number that does not fit a word has no place behind an identifier that is not known, and a
printable string with a question mark is no language. -/
theorem statements_text_limits :
    let element : List UInt8 := [4, 20, 48, 18, 48, 16, 6, 2, 42, 3,
      159, 130, 128, 128, 128, 128, 128, 128, 128, 128, 0, 0]
    let mark : List UInt8 := [4, 22, 48, 20, 48, 18, 6, 6, 4, 0, 142, 70, 1, 5, 48, 8, 48, 6, 22, 1, 117, 19, 1, 63]
    element ∈ leaf .octetString (node .sequence (node .sequence (leaf .objectIdentifier (objectIdContents ⟨[1, 2, 3]⟩) *
      elementsOf (.context (2 ^ 64))))) ∧
      (⟨"1.3.6.1.5.5.7.1.3", false, element⟩ : Extension).text {} = .error .integerOverflow ∧
    mark ∈ leaf .octetString (node .sequence (node .sequence
      (leaf .objectIdentifier (objectIdContents (QualifiedStatement.european 5)) * node .sequence (node .sequence
        (leaf .ia5String (asciiContents "u") * leaf .printableString {characterBytes "?"}))))) ∧
      (⟨"1.3.6.1.5.5.7.1.3", false, mark⟩ : Extension).text {} = .error .invalid := by
  intro element mark
  have hunknown : ObjectId.decode [42, 3] = .ok ⟨[1, 2, 3]⟩ := rfl
  have hdisclosure : ObjectId.decode [4, 0, 142, 70, 1, 5] = .ok (QualifiedStatement.european 5) := rfl
  have hurl : characterBytes "u" ∈ asciiContents "u" := ⟨by simp, rfl⟩
  have hmark : [63] ∈ ({characterBytes "?"} : Language UInt8) := rfl
  have hlargeStatement := make_mem_node (Language.append_mem_mul (make_mem_objectId hunknown (by decide))
    unreadable_mem_elementsOf) (by decide) .sequence
  have hstatements := make_mem_node (make_mem_node (Language.append_mem_mul (make_mem_leaf hurl (by decide) .ia5String)
    (make_mem_leaf hmark (by decide) .printableString)) (by decide) .sequence) (by decide) .sequence
  have hmarkStatement := make_mem_node (Language.append_mem_mul (make_mem_objectId hdisclosure (by decide)) hstatements)
    (by decide) .sequence
  exact ⟨make_mem_leaf (make_mem_node hlargeStatement (by decide) .sequence) (by decide) .octetString,
    by decide, make_mem_leaf (make_mem_node hmarkStatement (by decide) .sequence) (by decide) .octetString,
    rfl⟩

end Extension

end CertExtensions
