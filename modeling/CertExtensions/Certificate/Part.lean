import CertExtensions.Asn1.Time

/-!
# Parts of certificates

Certificates and requests are read by their structure alone, and less strictly than extension values: a length may
take more bytes than it needs, and bytes behind what is looked for inside a structure do not matter. Every reader
here gives a value or nothing.
-/

namespace CertExtensions

open Asn1

/-- Reads parts off the bytes that are left. -/
abbrev Parts := StateT (List UInt8) Option

namespace Parts

/-- The identifier and the length of an element, whose content need not be complete. -/
def header : Parts (Identifier × Nat) := fun bytes =>
  match readIdentifier bytes with
  | .error _ => none
  | .ok (id, rest) =>
    match readLength rest with
    | .error _ => none
    | .ok (length, rest) => some ((id, length.value), rest)

/-- The next element, whatever it is. -/
def element : Parts Element := fun bytes =>
  match header bytes with
  | none => none
  | some ((id, n), rest) =>
    if rest.length < n then none
    else
      let after := rest.drop n
      some (⟨id.tag, id.constructed, rest.take n, bytes.take (bytes.length - after.length)⟩, after)

/-- The next element, which has the tag and the form. -/
def expect (tag : Tag) (constructed : Bool) : Parts Element := do
  let next ← element
  guard (next.tag = tag ∧ next.constructed = constructed)
  return next

/-- Runs parts over a content; bytes behind them do not matter. -/
def within {α : Type} (parts : Parts α) (content : List UInt8) : Option α :=
  (parts.run content).map (·.1)

def inSequence {α : Type} (parts : Parts α) : Parts α := do
  let next ← expect .sequence true
  parts.within next.content

/-- An element that may be missing: the next one is read if it has the tag. -/
def optional (tag : Tag) : Parts (Option Element) := fun bytes =>
  if bytes.isEmpty then some (none, bytes)
  else
    match element bytes with
    | none => none
    | some (next, rest) => if next.tag = tag then some (some next, rest) else some (none, bytes)

/-- As many parts of one kind as it takes to use up the bytes; at most `fuel` of them. -/
def exhaust {α : Type} (part : Parts α) : Nat → List UInt8 → Option (List α)
  | _, [] => some []
  | 0, _ :: _ => none
  | fuel + 1, b :: bytes =>
    match part (b :: bytes) with
    | none => none
    | some (value, rest) => (exhaust part fuel rest).map (value :: ·)

/-- Parts of one kind that use up a content. -/
def all {α : Type} (part : Parts α) (content : List UInt8) : Option (List α) :=
  exhaust part content.length content

/-! ### Fields -/

def number : Parts Nat := do
  let next ← expect .integer false
  match decodeUInt64 next.content with
  | .ok n => if n < halfWordLimit then return n else failure
  | .error _ => failure

/-- A bit string, as the bytes behind the number of unused bits. -/
def bits : Parts (List UInt8) := do
  let next ← expect .bitString false
  match decodeBits next.content with
  | .ok bits => return bits.octets
  | .error _ => failure

/-- An algorithm: an object identifier, whatever comes behind it. -/
def algorithm : Parts Unit :=
  inSequence do
    let _ ← expect .objectIdentifier false

/-- Whether the bytes are a time zone: the universal one, or hours and minutes ahead of it or behind it. -/
def isZone : List UInt8 → Bool
  | [] => false
  | sign :: rest =>
    if sign = 0x5A then rest.isEmpty
    else if sign = 0x2B ∨ sign = 0x2D then
      match readDecimal 2 rest with
      | none => false
      | some (hours, rest) =>
        match readDecimal 2 rest with
        | some (minutes, []) => hours ≤ 25 && minutes < 60
        | _ => false
    else false

/-- Reads seconds if two bytes or more are left; there are none otherwise. -/
def readSeconds (content : List UInt8) : Option (Nat × List UInt8) :=
  if content.length < 2 then some (0, content) else readDecimal 2 content

/-- What follows the year of a time: a date, a time of day whose seconds may be missing, and the rest. -/
def afterYear? (year : Nat) (content : List UInt8) : Option (List UInt8) := do
  let (month, rest) ← readDecimal 2 content
  let (day, rest) ← readDecimal 2 rest
  let (hour, rest) ← readDecimal 2 rest
  let (minute, rest) ← readDecimal 2 rest
  let (second, rest) ← readSeconds rest
  guard (Calendar.isDate year month day && hour < 24 && minute < 60 && second < 60)
  return rest

/-- Whether the content is a time with two digits of the year. -/
def isShortTime (content : List UInt8) : Bool :=
  match readDecimal 2 content with
  | none => false
  | some (year, rest) =>
    match afterYear? (if year < 50 then 2000 + year else 1900 + year) rest with
    | none => false
    | some rest => isZone rest

/-- Whether the content is a time with four digits of the year and at most three of a fraction of the second; it
has no time zone but the universal one. -/
def isLongTime (content : List UInt8) : Bool :=
  match readDecimal 4 content with
  | none => false
  | some (year, rest) =>
    match afterYear? year rest with
    | some [0x5A] => true
    | some (point :: digit :: rest) =>
      (point == 0x2E || point == 0x2C) && rest.length ≤ 3 && rest.getLast? == some 0x5A &&
        (digit :: rest.dropLast).all fun b => (digit? b).isSome
    | _ => false

/-- A time of either type. -/
def time : Parts Unit := do
  let next ← element
  guard (!next.constructed ∧
    ((next.tag = .utcTime ∧ isShortTime next.content) ∨
      (next.tag = .generalizedTime ∧ isLongTime next.content)))

/-- The key bits of a public key with its algorithm. -/
def publicKey : Parts (List UInt8) :=
  inSequence do
    algorithm
    bits

end Parts

end CertExtensions
