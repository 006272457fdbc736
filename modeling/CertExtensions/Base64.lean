/-!
# Base 64

Bytes in symbols of six bits, four symbols for three bytes, the last group filled up with padding. Decoding takes
the one form that encoding gives: the padding has to be there, and bits that no byte takes up are zero.
-/

namespace CertExtensions.Base64

/-- Why symbols are not the encoding of bytes. -/
inductive Fault where
  /-- a byte that is no symbol, or padding where none can be -/
  | symbol (offset : Nat) (byte : UInt8)
  /-- a last symbol with bits that no byte takes up -/
  | lastSymbol (offset : Nat) (byte : UInt8)
  | padding
  | length (n : Nat)
  deriving DecidableEq, Repr

def Fault.message : Fault → String
  | .symbol offset byte => "Invalid symbol " ++ toString byte.toNat ++ ", offset " ++ toString offset ++ "."
  | .lastSymbol offset byte =>
    "Invalid last symbol " ++ toString byte.toNat ++ ", offset " ++ toString offset ++ "."
  | .padding => "Invalid padding"
  | .length n => "Invalid input length: " ++ toString n

/-- The byte that fills up the last group. -/
def pad : UInt8 := 0x3D

/-- The six bits that a symbol stands for. -/
def bits? (b : UInt8) : Option Nat :=
  if 0x41 ≤ b ∧ b ≤ 0x5A then some (b.toNat - 0x41)
  else if 0x61 ≤ b ∧ b ≤ 0x7A then some (b.toNat - 0x61 + 26)
  else if 0x30 ≤ b ∧ b ≤ 0x39 then some (b.toNat - 0x30 + 52)
  else if b = 0x2B then some 62
  else if b = 0x2F then some 63
  else none

/-- The bytes of groups of four symbols; two or three symbols at the end give one byte or two. -/
def bytesOfBits : List Nat → List UInt8
  | a :: b :: c :: d :: rest =>
    UInt8.ofNat (a * 4 + b / 16) :: UInt8.ofNat (b % 16 * 16 + c / 4) :: UInt8.ofNat (c % 4 * 64 + d) ::
      bytesOfBits rest
  | [a, b, c] => [UInt8.ofNat (a * 4 + b / 16), UInt8.ofNat (b % 16 * 16 + c / 4)]
  | [a, b] => [UInt8.ofNat (a * 4 + b / 16)]
  | _ => []

/-- The bits of symbols that stand from `offset` on; padding is none of them. -/
def readSymbols (offset : Nat) : List UInt8 → Except Fault (List Nat)
  | [] => .ok []
  | b :: rest =>
    match bits? b with
    | none => .error (.symbol offset b)
    | some bits => (readSymbols (offset + 1) rest).map (bits :: ·)

/-- The last group: the bits of its symbols and the number of pads behind them. `offset` is where the group
starts, `index` counts what has been read of it, and `firstPad?` is where padding began. -/
def readLastGroup (offset : Nat) : Nat → Option Nat → List UInt8 → Except Fault (List Nat × Nat)
  | _, _, [] => .ok ([], 0)
  | index, firstPad?, b :: rest =>
    if b = pad then
      if index < 2 then .error (.symbol (offset + index) b)
      else (readLastGroup offset (index + 1) (firstPad?.or (some index)) rest).map fun (bits, pads) =>
        (bits, pads + 1)
    else
      match firstPad? with
      | some first => .error (.symbol (offset + first) pad)
      | none =>
        match bits? b with
        | none => .error (.symbol (offset + index) b)
        | some bits => (readLastGroup offset (index + 1) none rest).map fun (more, pads) => (bits :: more, pads)

/-- Whether the last symbol has bits that no byte takes up. -/
def hasSpareBits : List Nat → Bool
  | [_, b] => b % 16 != 0
  | [_, _, c] => c % 4 != 0
  | _ => false

/-- The number of bytes in the last group, complete or not. -/
def lastGroupLength (n : Nat) : Nat :=
  if n % 4 = 0 then min n 4 else n % 4

/-- A single last byte that is no symbol is noticed before everything else. -/
def checkSingle (input : List UInt8) : Except Fault Unit :=
  match input.getLast? with
  | none => .ok ()
  | some b =>
    if input.length % 4 = 1 ∧ b ≠ pad ∧ (bits? b).isNone then .error (.symbol (input.length - 1) b)
    else .ok ()

def decode (input : List UInt8) : Except Fault (List UInt8) := do
  checkSingle input
  let offset := input.length - lastGroupLength input.length
  let front ← readSymbols 0 (input.take offset)
  let group := input.drop offset
  let (bits, pads) ← readLastGroup offset 0 none group
  if !input.isEmpty && bits.length < 2 then .error (.length (offset + bits.length))
  else if (bits.length + pads) % 4 ≠ 0 then .error .padding
  else if hasSpareBits bits then
    .error (.lastSymbol (offset + bits.length - 1) (group.getD (bits.length - 1) 0))
  else .ok (bytesOfBits (front ++ bits))

end CertExtensions.Base64
