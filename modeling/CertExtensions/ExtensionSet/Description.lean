import CertExtensions.Error
import CertExtensions.ExtensionSet.Basic
import CertExtensions.Text.Line

/-!
# Descriptions

The readable form of a whole set: each extension has a heading with its name, its identifier and its criticality,
and below it the lines of its text, indented.
-/

namespace CertExtensions

open Asn1

namespace Extension

/-- The line above the text of an extension. -/
def heading (extension : Extension) : String :=
  extension.name?.getD "Unknown Extension" ++ " (" ++ extension.identifier ++ ")" ++
    (if extension.critical then " critical" else "") ++ ":"

def describedLines (style : LayoutStyle) (extension : Extension) : Except Fault (List String) :=
  (extension.text style).map fun text =>
    extension.heading :: (Text.lines text).map (style.indent ++ ·)

end Extension

namespace ExtensionSet

/-- The text that describes the extensions, the critical ones first; the first one that cannot be read makes it
fail. -/
def describe (style : LayoutStyle) (set : ExtensionSet) : Except Error String :=
  match set.toList.mapM (·.describedLines style) with
  | .ok lists => .ok (String.join (lists.flatten.map (· ++ "\n")))
  | .error fault => .error (.decode fault)

end ExtensionSet

end CertExtensions
