import CertExtensions.Asn1.Primitive
import CertExtensions.Text.Split

/-!
# Object identifiers

An object identifier is a list of arcs. Its text has the arcs in decimal, joined by full stops; its encoding has
the first two arcs in one number and each number in base 128.
-/

namespace CertExtensions

/-- A path of arcs in the tree of registered objects. -/
structure ObjectId where
  arcs : List Nat
  deriving DecidableEq, Repr

namespace ObjectId

/-! ### Dotted texts -/

/-- The arcs in decimal, joined by full stops. -/
def dotted (id : ObjectId) : String :=
  String.ofList (Text.join '.' (id.arcs.map (Nat.toDigits 10)))

/-- The number below 2 to the 64 that decimal digits form; there must be one digit at least. -/
def number? (digits : List Char) : Option Nat :=
  if digits.isEmpty || !digits.all Char.isDigit then none
  else
    let n := Nat.ofDigitChars 10 digits 0
    if n < Asn1.wordLimit then some n else none

/-- The arc that a text stands for: decimal digits, with a plus sign in front at will. -/
def arc? : List Char → Option Nat
  | '+' :: digits => number? digits
  | digits => number? digits

/-- At least two arcs; the first is at most 2, and the second is below 40 unless the first is 2. -/
def isRegistrable : List Nat → Bool
  | first :: second :: _ => first ≤ 2 && (first == 2 || second < 40)
  | _ => false

/-- The object identifier of a dotted text. -/
def ofDotted? (text : String) : Option ObjectId :=
  match (Text.split '.' text.toList).mapM arc? with
  | none => none
  | some arcs => if isRegistrable arcs then some ⟨arcs⟩ else none

/-! ### Encodings -/

/-- The first two arcs that a number stands for. -/
def firstArcs (n : Nat) : List Nat :=
  if n < 40 then [0, n] else if n < 80 then [1, n - 40] else [2, n - 80]

/-- Reads the numbers of an encoding; `acc` holds the digits of the number that has begun. -/
def readNumbers (acc : Nat) : List UInt8 → Except Asn1.Fault (List Nat)
  | [] => .ok []
  | b :: rest =>
    if b = 128 then .error .invalid
    else if Asn1.wordLimit ≤ acc * 128 then .error .integerOverflow
    else if b < 128 then (readNumbers 0 rest).map ((acc * 128 + b.toNat) :: ·)
    else readNumbers (acc * 128 + (b.toNat - 128)) rest

/-- The object identifier of a content, which must be complete and have no digit too many. -/
def decode (content : List UInt8) : Except Asn1.Fault ObjectId :=
  if content.isEmpty || 128 ≤ content.getLastD 0 then .error .invalid
  else
    match readNumbers 0 content with
    | .error fault => .error fault
    | .ok [] => .error .invalid
    | .ok (first :: rest) => .ok ⟨firstArcs first ++ rest⟩

/-- Second arcs from here on cannot be joined with the first arc in an encoding. -/
def secondArcLimit : Nat := 18446744073709551535

/-- The content of an object identifier, if its first two arcs can be joined. -/
def encode? (id : ObjectId) : Option (List UInt8) :=
  match id.arcs with
  | first :: second :: rest =>
    if second < secondArcLimit then some (((40 * first + second) :: rest).flatMap Asn1.encodeBase128)
    else none
  | _ => none

end ObjectId

/-- An element that holds an object identifier. -/
def Asn1.objectId : Asn1.TaggedType ObjectId :=
  .ofContent .objectIdentifier ObjectId.decode

end CertExtensions
