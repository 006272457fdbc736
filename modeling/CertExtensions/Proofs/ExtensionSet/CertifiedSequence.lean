import CertExtensions.Proofs.Certificate.Grammar
import CertExtensions.Proofs.Certificate.SmallCertificate
import CertExtensions.Proofs.ExtensionSet.NormalForm
import CertExtensions.Proofs.ObjectId.FirstByte

/-!
# Two readers of one sequence of extensions

The extensions of a certificate are a sequence that can also be read by itself. Both readers find the same parts in it,
in the same order (`list_of_isSequenceOf`), so criticality, value and the last of several extensions come out alike. The
identifiers do not: the reader of certificates takes the first two arcs from the first byte, and where this byte does
not tell them, it gives an identifier that no part of the sequence has. So the set of the certificate has the extensions
of the other set whose first byte tells the first two arcs, and has none of the others (`ofCertificate_agrees`).
-/

namespace CertExtensions

open Asn1 Parts

variable {bytes sequence : List UInt8}

/-! ### Where the sequence stands -/

namespace Certificate

/-- What stands behind the header of the last field of a certificate. -/
def extensionSequence? (bytes : List UInt8) : Option (List UInt8) :=
  (firstContent? bytes).bind <| Parts.within do
    let _ ← fieldsPart
    let _ ← header
    get

private theorem list_of_extensionsPart {extensions : List CertifiedExtension} {head : Identifier × Nat}
    {rest : List UInt8}
    (h : extensionsPart bytes = some (extensions, rest)) (hheader : header bytes = some (head, sequence)) :
    CertifiedExtension.list sequence = some (extensions, []) := by
  -- there is no header where nothing is left
  obtain ⟨b, more, rfl⟩ : ∃ b more, bytes = b :: more := by
    cases bytes with
    | nil => cases hheader
    | cons b more => exact ⟨b, more, rfl⟩
  obtain ⟨_, _, hleft, h⟩ := of_bind_eq_some h
  cases hleft
  simp only [List.isEmpty_cons, Bool.false_eq_true, if_false] at h
  rw [bind_of_some hheader] at h
  obtain ⟨_, _, htag, h⟩ := of_bind_eq_some h
  obtain ⟨found, behind, hlist, h⟩ := of_bind_eq_some h
  obtain ⟨_, _, hget, h⟩ := of_bind_eq_some h
  obtain ⟨_, _, hend, hpure⟩ := of_bind_eq_some h
  obtain ⟨-, rfl⟩ := of_guard_eq_some htag
  cases hget
  cases hpure
  obtain ⟨hempty, -⟩ := of_guard_eq_some hend
  rw [hlist, List.isEmpty_iff.mp hempty]

private theorem list_of_read? {certificate : Certificate} (h : read? bytes = some certificate)
    (hsequence : extensionSequence? bytes = some sequence) :
    CertifiedExtension.list sequence = some (certificate.extensions, []) := by
  obtain ⟨content, found, _, hcontent, hparts, behind, _, hrest⟩ := exists_fields h
  obtain ⟨_, _, _, hrest⟩ := of_bind_eq_some hrest
  obtain ⟨_, _, _, hcertificate⟩ := of_bind_eq_some hrest
  obtain ⟨base, atExtensions, hfields, hparts⟩ := of_bind_eq_some hparts
  obtain ⟨extensions, _, hextensions, hfound⟩ := of_bind_eq_some hparts
  cases hcertificate
  cases hfound
  rw [extensionSequence?, hcontent, Option.bind_some] at hsequence
  obtain ⟨_, hsequence⟩ := within_eq_some_iff.mp hsequence
  rw [bind_of_some hfields] at hsequence
  obtain ⟨head, _, hheader, hget⟩ := of_bind_eq_some hsequence
  cases hget
  exact list_of_extensionsPart hextensions hheader

end Certificate

/-! ### One extension -/

namespace Occurrence

variable {o : Occurrence} {front flag value : List UInt8}

/-- The extension as a certificate holds it. -/
def certified (o : Occurrence) : CertifiedExtension :=
  ⟨o.id.content, o.critical, o.octets⟩

/-- Where the criticality is not written, its reader meets the tag of the value. -/
private theorem critical?_of_isFlag {critical : Bool} {octets : List UInt8} (hflag : IsFlag critical flag)
    (hvalue : IsElement .octetString false octets value) (hlt : octets.length < wordLimit) (rest : List UInt8) :
    CertifiedExtension.critical? (flag ++ (value ++ rest)) = some (critical, value ++ rest) := by
  obtain ⟨rfl, rfl⟩ | hflag := hflag
  · have helement := element_of_isElement hvalue (by decide) hlt rest
    have hoptional : Parts.optional .boolean (value ++ rest) = some (none, value ++ rest) :=
      optional_of_element helement
    rw [List.nil_append, CertifiedExtension.critical?, bind_of_some hoptional]
    rfl
  · have hone : [if critical then (255 : UInt8) else 0].length < wordLimit := show 1 < wordLimit by decide
    have helement := element_of_isElement hflag (by decide) hone (value ++ rest)
    rw [CertifiedExtension.critical?, bind_of_some (optional_of_element helement)]
    cases critical <;> rfl

private theorem IsEncoding.reads (h : o.IsEncoding front) (hlt : front.length < wordLimit) :
    Reads CertifiedExtension.part o.certified front := by
  obtain ⟨-, identifier, flag, value, hidentifier, hflag, hvalue, helement⟩ := h
  have hcontent := helement.length_content_lt
  have hid := hidentifier.length_content_lt
  have hoctets := hvalue.length_content_lt
  simp only [List.length_append] at hcontent
  refine Reads.inSequence ?_ helement (by simp only [List.length_append]; omega)
  refine Reads.bind (Reads.expect hidentifier (by decide) (by omega)) ?_
  intro rest
  rw [List.append_assoc, bind_of_some (critical?_of_isFlag hflag hvalue (by omega) rest),
    bind_of_some (Reads.expect hvalue (by decide) (by omega) rest)]
  rfl

variable {extension : Extension} {id : ObjectId}

/-- Whether a certificate has the extension for this part of its sequence. -/
def CertifiedAs (o : Occurrence) (extension : Extension) : Prop :=
  o.certified.wrapped? = some extension

private theorem CertifiedAs.exists_objectId? (h : o.CertifiedAs extension) :
    ∃ found, o.certified.objectId? = some found ∧ extension = ⟨found.dotted, o.critical, o.extension.value⟩ := by
  obtain ⟨found, hfound, rfl⟩ := Option.map_eq_some_iff.mp h
  exact ⟨found, hfound, rfl⟩

/-- Where the first byte tells the first two arcs, a certificate has the extension of the sequence. -/
private theorem CertifiedAs.eq_extension (h : o.CertifiedAs extension) (ho : ObjectId.isRegistrable o.id.arcs)
    (htells : o.id.firstByteTells) : extension = o.extension := by
  obtain ⟨found, hfound, rfl⟩ := h.exists_objectId?
  have hid := ObjectId.objectId?_of_content ho hfound
  rw [if_pos htells] at hid
  rw [hid]
  rfl

private theorem CertifiedAs.identifier_eq_iff (h : o.CertifiedAs extension) (ho : ObjectId.isRegistrable o.id.arcs)
    (hid : ObjectId.isRegistrable id.arcs) :
    extension.identifier = id.dotted ↔ o.id = id ∧ id.firstByteTells := by
  by_cases htells : o.id.firstByteTells
  · rw [h.eq_extension ho htells]
    constructor
    · intro hdotted
      obtain rfl := ObjectId.dotted_injective hdotted
      exact ⟨rfl, htells⟩
    · rintro ⟨rfl, -⟩
      rfl
  · obtain ⟨found, hfound, rfl⟩ := h.exists_objectId?
    have hunregistrable := ObjectId.objectId?_of_content ho hfound
    rw [if_neg htells] at hunregistrable
    constructor
    · intro hdotted
      obtain rfl := ObjectId.dotted_injective hdotted
      exact absurd hid hunregistrable
    · rintro ⟨rfl, htells'⟩
      exact absurd htells' htells

end Occurrence

/-! ### The sequence -/

private theorem Extension.parsedId_of_readable {extension : Extension} {id : ObjectId} (h : id.Readable)
    (hidentifier : extension.identifier = id.dotted) : extension.parsedId = id := by
  apply parsedId_eq
  rw [hidentifier]
  exact ObjectId.ofDotted?_dotted h.registrable h.arcs_lt

namespace ExtensionSet

variable {occurrences : List Occurrence} {set other : ExtensionSet}

private theorem reads_of_forall₂ {elements : List (List UInt8)}
    (h : List.Forall₂ Occurrence.IsEncoding occurrences elements) (hlt : elements.flatten.length < wordLimit) :
    List.Forall₂ (fun extension front => front ≠ [] ∧ Reads CertifiedExtension.part extension front)
      (occurrences.map (·.certified)) elements := by
  induction h with
  | nil => exact .nil
  | @cons o front _ _ hfirst _ ih =>
    rw [List.flatten_cons, List.length_append] at hlt
    have hne : front ≠ [] := List.ne_nil_of_length_pos (Nat.lt_of_le_of_lt (Nat.zero_le _) hfirst.length_value_lt)
    exact .cons ⟨hne, hfirst.reads (by omega)⟩ (ih (by omega))

theorem list_of_isSequenceOf (h : IsSequenceOf occurrences sequence) (hlt : sequence.length < wordLimit) :
    CertifiedExtension.list sequence = some (occurrences.map (·.certified), []) := by
  obtain ⟨elements, hall, helement⟩ := h
  have hcontent := Nat.lt_trans helement.length_content_lt hlt
  have hlist := Reads.expect helement (by decide) hcontent []
  rw [List.append_nil] at hlist
  rw [CertifiedExtension.list, bind_of_some hlist]
  simp only [Reads.all (reads_of_forall₂ hall hcontent)]
  rfl

/-! ### The sets -/

private theorem forall₂_of_mapM {extensions : List Extension}
    (h : (occurrences.map (·.certified)).mapM CertifiedExtension.wrapped? = some extensions) :
    List.Forall₂ Occurrence.CertifiedAs occurrences extensions := by
  induction occurrences generalizing extensions with
  | nil =>
    cases h
    exact .nil
  | cons o occurrences ih =>
    rw [List.map_cons, List.mapM_cons] at h
    obtain ⟨extension, hfirst, h⟩ := Option.bind_eq_some_iff.mp h
    obtain ⟨more, hmore, h⟩ := Option.bind_eq_some_iff.mp h
    cases h
    exact .cons hfirst (ih hmore)

private theorem find?_of_forall₂ {extensions : List Extension} {id : ObjectId}
    (h : List.Forall₂ Occurrence.CertifiedAs occurrences extensions)
    (hall : ∀ o ∈ occurrences, ObjectId.isRegistrable o.id.arcs) (hid : ObjectId.isRegistrable id.arcs) :
    extensions.find? (·.identifier = id.dotted) =
      if id.firstByteTells then (occurrences.find? (·.id = id)).map (·.extension) else none := by
  induction h with
  | nil => simp
  | @cons o extension _ _ hfirst _ ih =>
    obtain ⟨ho, hmore⟩ := List.forall_mem_cons.mp hall
    have hiff := hfirst.identifier_eq_iff ho hid
    rw [List.find?_cons, List.find?_cons, ih hmore]
    by_cases hmatch : o.id = id ∧ id.firstByteTells
    · obtain ⟨rfl, htells⟩ := hmatch
      rw [decide_eq_true (hiff.mpr ⟨rfl, htells⟩), decide_eq_true rfl, hfirst.eq_extension ho htells, if_pos htells,
        if_pos htells]
      rfl
    · rw [decide_eq_false (mt hiff.mp hmatch)]
      by_cases htells : id.firstByteTells
      · rw [decide_eq_false fun heq => hmatch ⟨heq, htells⟩]
      · rw [if_neg htells, if_neg htells]

private theorem map_extension_of_forall₂ {extensions : List Extension}
    (h : List.Forall₂ Occurrence.CertifiedAs occurrences extensions)
    (hall : ∀ o ∈ occurrences, ObjectId.isRegistrable o.id.arcs ∧ o.id.firstByteTells) :
    occurrences.map (·.extension) = extensions := by
  induction h with
  | nil => rfl
  | cons hfirst _ ih =>
    obtain ⟨⟨ho, htells⟩, hmore⟩ := List.forall_mem_cons.mp hall
    rw [List.map_cons, ih hmore, hfirst.eq_extension ho htells]

private theorem exists_of_ofCertificate (h : ofCertificate bytes = .ok set) :
    ∃ certificate extensions, Certificate.read? bytes = some certificate ∧
      certificate.extensions.mapM CertifiedExtension.wrapped? = some extensions ∧ empty.insertAll extensions = set := by
  unfold ofCertificate at h
  split at h
  · next found hfound =>
    cases h
    obtain ⟨certificate, hread, hset⟩ := Option.bind_eq_some_iff.mp hfound
    obtain ⟨extensions, hextensions, hinsert⟩ := Option.map_eq_some_iff.mp hset
    exact ⟨certificate, extensions, hread, hextensions, hinsert⟩
  · cases h

/-- Both sets are made of the same parts of the sequence, in the same order. -/
private theorem exists_certifiedAs (h : ofCertificate bytes = .ok set)
    (hsequence : Certificate.extensionSequence? bytes = some sequence) (hother : fromDer sequence = .ok other) :
    ∃ (occurrences : List Occurrence) (extensions : List Extension), (∀ o ∈ occurrences, o.id.Readable) ∧
      List.Forall₂ Occurrence.CertifiedAs occurrences extensions ∧ empty.insertAll extensions = set ∧
      empty.insertAll (occurrences.map (·.extension)) = other := by
  obtain ⟨certificate, extensions, hread, hextensions, hset⟩ := exists_of_ofCertificate h
  obtain ⟨hlt, occurrences, hoccurrences, hinsert⟩ := fromDer_eq_ok_iff.mp hother
  have hlist := Certificate.list_of_read? hread hsequence
  rw [list_of_isSequenceOf hoccurrences hlt] at hlist
  obtain ⟨hcertified, -⟩ := Prod.mk.inj (Option.some.inj hlist)
  rw [← hcertified] at hextensions
  obtain ⟨elements, hall, -⟩ := hoccurrences
  exact ⟨occurrences, extensions, readable_of_forall₂ hall, forall₂_of_mapM hextensions, hset, hinsert⟩

private theorem find?_of_certifiedAs {extensions : List Extension} (hreadable : ∀ o ∈ occurrences, o.id.Readable)
    (h : List.Forall₂ Occurrence.CertifiedAs occurrences extensions)
    (hinsert : empty.insertAll (occurrences.map (·.extension)) = other) {id : ObjectId}
    (hid : ObjectId.isRegistrable id.arcs) :
    (empty.insertAll extensions).find? id.dotted = if id.firstByteTells then other.find? id.dotted else none := by
  -- the last extension counts, so both lists are searched from their ends
  have hreverse := List.forall₂_reverse_iff.mpr h
  have hall : ∀ o ∈ occurrences.reverse, ObjectId.isRegistrable o.id.arcs := fun o ho =>
    (hreadable o (List.mem_reverse.mp ho)).registrable
  rw [find?_insertAll, find?_empty, Option.or_none, find?_of_forall₂ hreverse hall hid, find?_of_fromDer hinsert]

/-- What holds of the object identifiers in a set holds of all that its sequence has. -/
private theorem forall_id_of_forall_parsedId {p : ObjectId → Prop} (hreadable : ∀ o ∈ occurrences, o.id.Readable)
    (hinsert : empty.insertAll (occurrences.map (·.extension)) = other)
    (h : ∀ extension ∈ other.toList, p extension.parsedId) : ∀ o ∈ occurrences, p o.id := by
  intro o ho
  have hcontains := (contains_iff_of_fromDer hinsert).mpr ⟨o, ho, rfl⟩
  rw [contains_eq, Option.isSome_iff_exists] at hcontains
  obtain ⟨extension, hextension⟩ := hcontains
  obtain ⟨hmem, hidentifier⟩ := find?_eq_some_iff.mp hextension
  rw [← Extension.parsedId_of_readable (hreadable o ho) hidentifier]
  exact h extension hmem

/-- Both sets have the same extensions for the identifiers whose first byte tells the first two arcs, and the set of the
certificate has none for any other; so they are the same set exactly where the sequence has no other identifiers. -/
theorem ofCertificate_agrees (h : ofCertificate bytes = .ok set)
    (hsequence : Certificate.extensionSequence? bytes = some sequence) (hother : fromDer sequence = .ok other) :
    (∀ id : ObjectId, ObjectId.isRegistrable id.arcs →
      set.find? id.dotted = if id.firstByteTells then other.find? id.dotted else none) ∧
      (set = other ↔ ∀ extension ∈ other.toList, extension.parsedId.firstByteTells) := by
  obtain ⟨occurrences, extensions, hreadable, hcertified, rfl, hinsert⟩ := exists_certifiedAs h hsequence hother
  refine ⟨fun id hid => find?_of_certifiedAs hreadable hcertified hinsert hid, ?_, ?_⟩
  · intro heq extension hmem
    obtain ⟨id, hid, hidentifier⟩ := readable_of_fromDer hother hmem
    have hfind := find?_of_certifiedAs hreadable hcertified hinsert hid.registrable
    rw [heq, ← hidentifier, mem_toList_iff.mp hmem] at hfind
    rw [Extension.parsedId_of_readable hid hidentifier]
    by_contra htells
    rw [if_neg htells] at hfind
    cases hfind
  · intro htells
    have hall := forall_id_of_forall_parsedId (p := fun id => id.firstByteTells) hreadable hinsert htells
    rw [← hinsert, map_extension_of_forall₂ hcertified fun o ho => ⟨(hreadable o ho).registrable, hall o ho⟩]

/-- Basic constraints twice, the later ones count, and between them an identifier whose first number takes two bytes. -/
def arcsAndConstraints : List UInt8 :=
  constructed .sequence <|
    [(⟨⟨[2, 5, 29, 19]⟩, true, [48, 0]⟩ : Occurrence), ⟨⟨[2, 999, 1]⟩, true, [5, 0]⟩,
      ⟨⟨[2, 5, 29, 19]⟩, false, [48, 3, 1, 1, 255]⟩].flatMap (·.shortest)

theorem ofCertificate_agrees_arcsAndConstraints :
    let bytes := smallCertificate arcsAndConstraints
    let constraints : Extension := ⟨"2.5.29.19", false, [4, 5, 48, 3, 1, 1, 255]⟩
    let set := empty.insertAll [constraints, ⟨"3.16.55.1", true, [4, 2, 5, 0]⟩]
    let other := empty.insertAll [constraints, ⟨"2.999.1", true, [4, 2, 5, 0]⟩]
    ofCertificate bytes = .ok set ∧ Certificate.extensionSequence? bytes = some arcsAndConstraints ∧
      fromDer arcsAndConstraints = .ok other ∧
      (∀ id : ObjectId, ObjectId.isRegistrable id.arcs →
        set.find? id.dotted = if id.firstByteTells then other.find? id.dotted else none) ∧
      (set = other ↔ ∀ extension ∈ other.toList, extension.parsedId.firstByteTells) := by
  intro bytes constraints set other
  have h : ofCertificate bytes = .ok set := by decide +kernel
  have hsequence : Certificate.extensionSequence? bytes = some arcsAndConstraints := by decide +kernel
  have hother : fromDer arcsAndConstraints = .ok other := by decide
  exact ⟨h, hsequence, hother, ofCertificate_agrees h hsequence hother⟩

/-- The first number of the identifier takes two bytes, the first of which is 136. -/
theorem ofCertificate_ne_fromDer :
    let sequence := constructed .sequence (Occurrence.shortest ⟨⟨[2, 999]⟩, false, [5, 0]⟩)
    let bytes := smallCertificate sequence
    let set := empty.insert ⟨"3.16.55", false, [4, 2, 5, 0]⟩
    let other := empty.insert ⟨"2.999", false, [4, 2, 5, 0]⟩
    Certificate.extensionSequence? bytes = some sequence ∧ ofCertificate bytes = .ok set ∧
      fromDer sequence = .ok other ∧ set ≠ other := by
  decide

end ExtensionSet

end CertExtensions
