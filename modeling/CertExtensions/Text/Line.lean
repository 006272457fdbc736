import CertExtensions.Text.Split

/-!
# Lines and blanks

How a text falls into lines, and which characters are blanks.
-/

namespace CertExtensions.Text

/-- Leaves out the last piece if it is empty: a line feed ends a line and starts none. -/
def dropEmptyLast : List (List Char) → List (List Char)
  | [] => []
  | [piece] => if piece.isEmpty then [] else [piece]
  | piece :: more => piece :: dropEmptyLast more

/-- Leaves out one carriage return at the end. -/
def dropReturn (line : List Char) : List Char :=
  if line.getLast? = some '\r' then line.dropLast else line

/-- The pieces without the last one have a line feed behind them, which may follow a carriage return. -/
def dropReturns : List (List Char) → List (List Char)
  | [] => []
  | [piece] => [piece]
  | piece :: more => dropReturn piece :: dropReturns more

/-- The lines of a text, without the line feeds that end them and a carriage return before each. -/
def lines (text : String) : List String :=
  (dropEmptyLast (dropReturns (split '\n' text.toList))).map String.ofList

/-- Whether the character is a blank of Unicode: `White_Space`. -/
def isBlank (c : Char) : Bool :=
  let n := c.toNat
  (9 ≤ n && n ≤ 13) || n == 0x20 || n == 0x85 || n == 0xA0 || n == 0x1680 || (0x2000 ≤ n && n ≤ 0x200A) ||
    n == 0x2028 || n == 0x2029 || n == 0x202F || n == 0x205F || n == 0x3000

end CertExtensions.Text
