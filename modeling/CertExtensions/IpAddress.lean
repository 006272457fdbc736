import CertExtensions.BigEndian
import CertExtensions.Text.Split
import CertExtensions.Hex

/-!
# Internet addresses

The texts of addresses of four and of sixteen bytes, alone or with a mask of the same length. An address of
sixteen bytes shows its longest run of zero groups as `::`, unless it only wraps an address of four bytes.
-/

namespace CertExtensions.IpAddress

/-! ### Four bytes -/

/-- The bytes in decimal, joined by full stops. -/
def fourText (octets : List UInt8) : List Char :=
  Text.join '.' (octets.map fun b => Nat.toDigits 10 b.toNat)

/-! ### Sixteen bytes -/

def groups : List UInt8 → List Nat
  | a :: b :: rest => BigEndian.value [a, b] :: groups rest
  | _ => []

/-- The number of zero groups at the start. -/
def zeroRun (gs : List Nat) : Nat :=
  (gs.takeWhile (· == 0)).length

/-- The start and the length of the longest run of zero groups, the first one of equals. -/
def longestZeroRun (gs : List Nat) : Nat × Nat :=
  (List.range gs.length).foldl
    (fun best start =>
      let run := zeroRun (gs.drop start)
      if best.2 < run then (start, run) else best)
    (0, 0)

/-- Groups in lower case hex, joined by colons. -/
def groupText (gs : List Nat) : List Char :=
  Text.join ':' (gs.map (Nat.toDigits 16))

/-- Whether the bytes wrap an address of four bytes: ten zero bytes and two of 255 before it. -/
def isMapped (octets : List UInt8) : Bool :=
  octets.take 12 == List.replicate 10 0 ++ [255, 255]

def sixteenText (octets : List UInt8) : List Char :=
  if isMapped octets then "::ffff:".toList ++ fourText (octets.drop 12)
  else
    let gs := groups octets
    let (start, run) := longestZeroRun gs
    if run < 2 then groupText gs
    else groupText (gs.take start) ++ ':' :: ':' :: groupText (gs.drop (start + run))

/-! ### Addresses with and without mask -/

/-- The text of an address, with its mask behind a slash; other lengths are shown as a number. -/
def text (octets : List UInt8) : String :=
  match octets.length with
  | 4 => String.ofList (fourText octets)
  | 16 => String.ofList (sixteenText octets)
  | 8 => String.ofList (fourText (octets.take 4) ++ '/' :: fourText (octets.drop 4))
  | 32 => String.ofList (sixteenText (octets.take 16) ++ '/' :: sixteenText (octets.drop 16))
  | _ => Hex.numeral octets

end CertExtensions.IpAddress
