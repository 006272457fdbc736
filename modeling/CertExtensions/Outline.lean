/-!
# Outlines

The readable form of a value is a list of lines, each with a depth and a content. How deep an indent is and
whether a URI becomes a link is decided when the lines are laid out, and never before.
-/

namespace CertExtensions

structure LayoutStyle where
  /-- show a URI as a link to itself -/
  linkUris : Bool := false
  /-- what stands in front of a line once for each level of depth -/
  indent : String := "    "
  deriving DecidableEq, Repr

/-- The content of a line: a text, and a URI at its end if there is one. -/
structure Phrase where
  text : String
  uri? : Option String := none
  deriving DecidableEq, Repr

namespace Phrase

def plain (text : String) : Phrase := ⟨text, none⟩

/-- A text that ends in a URI. -/
def ofUri (label uri : String) : Phrase := ⟨label, some uri⟩

/-- The phrase with a label in front. -/
def labelled (label : String) (phrase : Phrase) : Phrase :=
  { phrase with text := label ++ phrase.text }

/-- A link whose target and text are the URI. -/
def anchor (uri : String) : String :=
  "<a href=\"" ++ uri ++ "\">" ++ uri ++ "</a>"

def layOut (linkUris : Bool) (phrase : Phrase) : String :=
  match phrase.uri? with
  | none => phrase.text
  | some uri => phrase.text ++ (if linkUris then anchor uri else uri)

end Phrase

structure Line where
  depth : Nat
  content : Phrase
  deriving DecidableEq, Repr

abbrev Outline := List Line

namespace Outline

def line (depth : Nat) (text : String) : Outline := [⟨depth, .plain text⟩]

/-- One line with a content that may end in a URI. -/
def item (depth : Nat) (content : Phrase) : Outline := [⟨depth, content⟩]

/-- Texts, a line each. -/
def lines (depth : Nat) (texts : List String) : Outline :=
  texts.map fun text => ⟨depth, .plain text⟩

/-- A line if there is a value to show, with a label in front of it. -/
def field? {α : Type} (depth : Nat) (label : String) (text : α → String) : Option α → Outline
  | none => []
  | some value => line depth (label ++ text value)

/-- The outlines of items numbered from 1 on. -/
def numbered {α : Type} (block : Nat → α → Outline) (items : List α) : Outline :=
  (items.zipIdx 1).flatMap fun (item, number) => block number item

def indentation (indent : String) : Nat → String
  | 0 => ""
  | depth + 1 => indent ++ indentation indent depth

/-- A line with its indent in front and a line feed behind. -/
def layOutLine (style : LayoutStyle) (l : Line) : String :=
  indentation style.indent l.depth ++ l.content.layOut style.linkUris ++ "\n"

def layOut (style : LayoutStyle) : Outline → String
  | [] => ""
  | l :: rest => layOutLine style l ++ layOut style rest

end Outline

end CertExtensions
