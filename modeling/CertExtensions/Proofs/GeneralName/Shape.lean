import CertExtensions.GeneralName
import CertExtensions.Proofs.Asn1.CharacterString
import CertExtensions.Proofs.Asn1.Integer

/-!
# Shapes of general names

What can be read as a general name is an element with one of nine tags around the elements of its form
(`GeneralName.findsOnly`). What is in the strings is left open, unless it is no ASCII where nothing else is taken.
-/

open Computability

namespace CertExtensions

open Asn1

def Attribute.shape : Language UInt8 := node .sequence (objectIdShape * someElement)

def Name.shape : Language UInt8 := node .sequence (node .set Attribute.shape∗)∗

theorem Attribute.findsOnly : Attribute.taggedType.schema.FindsOnly Attribute.shape :=
  TaggedType.findsOnly_sequence
    (findsOnly_objectId.required.bind fun _ => Schema.findsOnly_any.required.bind_pure _)

theorem Name.findsOnly : Name.taggedType.schema.FindsOnly Name.shape :=
  TaggedType.findsOnly_map (TaggedType.findsOnly_sequenceOf (TaggedType.findsOnly_setOf Attribute.findsOnly)) Name.mk

namespace GeneralName

def otherShape : Language UInt8 := objectIdShape * node (.context 0) someElement

def ediPartyShape : Language UInt8 := (1 + node (.context 0) textShape) * node (.context 1) textShape

/-- The shapes of the nine forms. -/
def forms : List (Language UInt8) := [
  node (.context 0) otherShape,
  leaf (.context 1) asciiShape,
  leaf (.context 2) asciiShape,
  elementsOf (.context 3),
  node (.context 4) Name.shape,
  node (.context 5) ediPartyShape,
  leaf (.context 6) asciiShape,
  leaf (.context 7) ⊤,
  leaf (.context 8) (⨆ id, objectIdContents id)]

def shape : Language UInt8 := ⨆ form ∈ forms, form

private theorem findsOnly_otherType :
    (otherType.implicit (.context 0)).schema.FindsOnly (node (.context 0) otherShape) :=
  TaggedType.findsOnly_fields (by decide) (findsOnly_objectId.required.bind fun _ =>
    (TaggedType.findsOnly_explicit (by decide) Schema.findsOnly_any).required.bind_pure _)

private theorem findsOnly_ediPartyType :
    (ediPartyType.implicit (.context 5)).schema.FindsOnly (node (.context 5) ediPartyShape) :=
  TaggedType.findsOnly_fields (by decide)
    ((TaggedType.findsOnly_explicit (by decide) findsOnly_anyString).optional.bind fun _ =>
      (TaggedType.findsOnly_explicit (by decide) findsOnly_anyString).required.bind_pure _)

theorem findsOnly : schema.FindsOnly shape := by
  have hascii : ∀ {tag : Tag} (form : String → GeneralName), tag.number < 31 →
      ((ia5String.map form).implicit tag).schema.FindsOnly (leaf tag asciiShape) := fun form hnumber =>
    TaggedType.findsOnly_map (TaggedType.findsOnly_ofContent hnumber fun _ _ hdecode => ascii_of_decode hdecode) form
  have hx400 := TaggedType.findsOnly_map
    (TaggedType.findsOnly_undecoded (show (Tag.context 3).number < 31 by decide)) x400
  have hdirectory := TaggedType.findsOnly_explicit (show (Tag.context 4).number < 31 by decide)
    (TaggedType.findsOnly_map Name.findsOnly directory)
  have hip : ((octetString.map ip).implicit (.context 7)).schema.FindsOnly (leaf (.context 7) ⊤) :=
    TaggedType.findsOnly_map (TaggedType.findsOnly_ofContent (by decide) fun _ _ _ => trivial) ip
  have hregistered : ((objectId.map registered).implicit (.context 8)).schema.FindsOnly
      (leaf (.context 8) (⨆ id, objectIdContents id)) :=
    TaggedType.findsOnly_map (TaggedType.findsOnly_ofContent (by decide) fun _ _ hdecode =>
      objectId_of_decode hdecode) registered
  exact Schema.findsOnly_choice_forms (.cons findsOnly_otherType <| .cons (hascii mailbox (by decide)) <|
    .cons (hascii dns (by decide)) <| .cons hx400 <| .cons hdirectory <| .cons findsOnly_ediPartyType <|
    .cons (hascii uri (by decide)) <| .cons hip <| .cons hregistered .nil)

end GeneralName

end CertExtensions
