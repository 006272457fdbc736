import CertExtensions.Asn1.Header

/-!
# Elements

An element is an identifier, a length and a content. `Element.make` writes one, `Element.complete` takes one
off the bytes once its identifier is known.
-/

namespace CertExtensions.Asn1

/-- One element: its identifier, its content and all of its bytes. -/
structure Element where
  tag : Tag
  constructed : Bool
  content : List UInt8
  encoding : List UInt8
  deriving DecidableEq, Repr

/-- The element with the given tag, form and content, its length in the shortest form. -/
def Element.make (tag : Tag) (constructed : Bool) (content : List UInt8) : Element :=
  ⟨tag, constructed, content,
    encodeIdentifier ⟨tag, constructed⟩ ++ encodeLength content.length ++ content⟩

def primitive (tag : Tag) (content : List UInt8) : List UInt8 :=
  (Element.make tag false content).encoding

def constructed (tag : Tag) (content : List UInt8) : List UInt8 :=
  (Element.make tag true content).encoding

/-- The length of a content that fits behind its header: lengths have one form below 128, and the content must
not reach past the end. `whole` is the element from its first byte on, `rest` what follows the length. -/
def checkLength (whole rest : List UInt8) (length : Length) : Except Fault Nat :=
  if length.long && length.value < 128 then .error .invalid
  else if wordLimit ≤ (whole.length - rest.length) + length.value then .error .integerOverflow
  else if rest.length < length.value then .error .eof
  else .ok length.value

/-- Completes the element whose identifier has been read off `whole`, leaving `rest`. -/
def Element.complete (whole : List UInt8) (id : Identifier) (rest : List UInt8) :
    Except Fault (Element × List UInt8) :=
  match readLength rest with
  | .error fault => .error fault
  | .ok (length, rest) =>
    match checkLength whole rest length with
    | .error fault => .error fault
    | .ok n =>
      let after := rest.drop n
      .ok (⟨id.tag, id.constructed, rest.take n, whole.take (whole.length - after.length)⟩, after)

end CertExtensions.Asn1
