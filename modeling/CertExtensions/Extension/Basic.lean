import CertExtensions.Extension.Presentation

/-!
# Extensions

An extension is an identifier, a criticality and a value; the value is kept as the encoded octet string around the
structure that the identifier announces. Its body is decoded without regard to how it will be laid out.
-/

namespace CertExtensions

open Asn1

/-- An extension of a certificate; the identifier is a text, whether or not it is dotted. -/
structure Extension where
  identifier : String
  critical : Bool
  value : List UInt8
  deriving DecidableEq, Repr

/-- The readable form of a value before it is laid out. -/
inductive ExtensionBody where
  | dump (octets : List UInt8)
  | outline (lines : Outline)
  deriving DecidableEq, Repr

namespace ExtensionBody

/-- The text of a body; a dump has the same text in every style. -/
def layOut (style : LayoutStyle) : ExtensionBody → String
  | .dump octets => Hex.dump octets
  | .outline lines => lines.layOut style

end ExtensionBody

/-- The body of octets that are shown in the given way. -/
def Presentation.body (octets : List UInt8) : Presentation → Except Fault ExtensionBody
  | .dump => .ok (.dump octets)
  | .number => .ok (.outline (.line 0 (Hex.numeral octets)))
  | .structured schema => (schema.whole octets).map .outline

namespace Extension

def type? (extension : Extension) : Option ExtensionType :=
  ExtensionType.ofIdentifier? extension.identifier

def name? (extension : Extension) : Option String :=
  extension.type?.map (·.name)

/-- How the value is shown; values of types that are not known are dumped. -/
def presentation (extension : Extension) : Presentation :=
  match extension.type? with
  | some type => type.presentation
  | none => .dump

def body (extension : Extension) : Except Fault ExtensionBody :=
  match octetString.whole extension.value with
  | .error fault => .error fault
  | .ok octets => extension.presentation.body octets

def text (style : LayoutStyle) (extension : Extension) : Except Fault String :=
  extension.body.map (·.layOut style)

/-- The octets are decoded first, and only then laid out. -/
theorem text_eq {extension : Extension} {octets : List UInt8} (h : octetString.whole extension.value = .ok octets)
    (style : LayoutStyle) : extension.text style = (extension.presentation.body octets).map (·.layOut style) := by
  rw [text, body, h]

end Extension

end CertExtensions
