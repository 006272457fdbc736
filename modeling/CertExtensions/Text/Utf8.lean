/-!
# UTF-8

Reading UTF-8 bytes, and saying where and how bytes fail to be UTF-8.
-/

namespace CertExtensions.Text.Utf8

def decode? (bytes : List UInt8) : Option String :=
  String.fromUTF8? ⟨bytes.toArray⟩

def isValid (bytes : List UInt8) : Bool :=
  (decode? bytes).isSome

/-- The greatest number up to `n` of leading bytes that encode a text. -/
def validLengthUpTo (bytes : List UInt8) : Nat → Nat
  | 0 => 0
  | n + 1 => if isValid (bytes.take (n + 1)) then n + 1 else validLengthUpTo bytes n

/-- Where bytes fail to be UTF-8: the number of bytes before the first fault, and the number of bytes at fault or
nothing if the bytes end within a character. -/
structure Flaw where
  index : Nat
  width : Option Nat
  deriving DecidableEq, Repr

/-- Whether the byte continues a character. -/
def isContinuation (b : UInt8) : Bool :=
  128 ≤ b && b < 192

/-- Whether `second` can follow the first byte of a character of more than one byte. -/
def canFollow (first second : UInt8) : Bool :=
  isContinuation second &&
    (first != 0xE0 || 0xA0 ≤ second) && (first != 0xED || second < 0xA0) &&
    (first != 0xF0 || 0x90 ≤ second) && (first != 0xF4 || second < 0x90)

/-- The number of bytes of the characters with this first byte; a byte that starts none counts one. -/
def announced (first : UInt8) : Nat :=
  if 0xC2 ≤ first ∧ first < 0xE0 then 2
  else if 0xE0 ≤ first ∧ first < 0xF0 then 3
  else if 0xF0 ≤ first ∧ first < 0xF5 then 4
  else 1

/-- The number of bytes at fault, where the bytes do not start with a character. -/
def flawWidth : List UInt8 → Option Nat
  | [] => none
  | first :: rest =>
    if announced first = 1 then some 1
    else
      match rest with
      | [] => none
      | second :: rest =>
        if !canFollow first second then some 1
        else
          let more := rest.take (announced first - 2)
          if more.all isContinuation then none else some (2 + (more.takeWhile isContinuation).length)

/-- The first fault of bytes that are not UTF-8. -/
def flaw (bytes : List UInt8) : Flaw :=
  let index := validLengthUpTo bytes bytes.length
  ⟨index, flawWidth (bytes.drop index)⟩

def Flaw.message (flaw : Flaw) : String :=
  match flaw.width with
  | some width =>
    "invalid utf-8 sequence of " ++ toString width ++ " bytes from index " ++ toString flaw.index
  | none => "incomplete utf-8 byte sequence from index " ++ toString flaw.index

end CertExtensions.Text.Utf8
