import CertExtensions.BigEndian

/-!
# SHA-1

The 160 bit hash of a byte string. The message is padded to blocks of sixteen words; each block extends its
words to a schedule of eighty and drives one compression of the five word state.
-/

namespace CertExtensions.Hash

/-- The word turned left by `n` bits, `n` below 32. -/
def rotateLeft (w : UInt32) (n : UInt32) : UInt32 :=
  (w <<< n) ||| (w >>> (32 - n))

/-- The five words that a message has been compressed to so far. -/
structure Sha1State where
  a : UInt32
  b : UInt32
  c : UInt32
  d : UInt32
  e : UInt32
  deriving DecidableEq, Repr

namespace Sha1State

def start : Sha1State :=
  ⟨0x67452301, 0xEFCDAB89, 0x98BADCFE, 0x10325476, 0xC3D2E1F0⟩

def add (s t : Sha1State) : Sha1State :=
  ⟨s.a + t.a, s.b + t.b, s.c + t.c, s.d + t.d, s.e + t.e⟩

/-- The mixing word and the constant of a round. -/
def mix (s : Sha1State) (round : Nat) : UInt32 × UInt32 :=
  if round < 20 then ((s.b &&& s.c) ||| (~~~s.b &&& s.d), 0x5A827999)
  else if round < 40 then (s.b ^^^ s.c ^^^ s.d, 0x6ED9EBA1)
  else if round < 60 then ((s.b &&& s.c) ||| (s.b &&& s.d) ||| (s.c &&& s.d), 0x8F1BBCDC)
  else (s.b ^^^ s.c ^^^ s.d, 0xCA62C1D6)

/-- One round with one word of the schedule. -/
def round (s : Sha1State) (index : Nat) (w : UInt32) : Sha1State :=
  let (f, k) := s.mix index
  ⟨rotateLeft s.a 5 + f + s.e + k + w, s.a, rotateLeft s.b 30, s.c, s.d⟩

/-- The rounds of a schedule, numbered from `index` on. -/
def rounds (s : Sha1State) (index : Nat) : List UInt32 → Sha1State
  | [] => s
  | w :: rest => (s.round index w).rounds (index + 1) rest

def bytes (s : Sha1State) : List UInt8 :=
  [s.a, s.b, s.c, s.d, s.e].flatMap fun w => BigEndian.fixed 4 w.toNat

end Sha1State

/-- Adds `n` words to a schedule that is kept latest word first. -/
def extendSchedule : Nat → List UInt32 → List UInt32
  | 0, ws => ws
  | n + 1, ws =>
    let w := rotateLeft (ws.getD 2 0 ^^^ ws.getD 7 0 ^^^ ws.getD 13 0 ^^^ ws.getD 15 0) 1
    extendSchedule n (w :: ws)

def schedule (block : List UInt32) : List UInt32 :=
  (extendSchedule 64 block.reverse).reverse

/-- The state after one more block of sixteen words. -/
def compress (s : Sha1State) (block : List UInt32) : Sha1State :=
  s.add (s.rounds 0 (schedule block))

/-- Four bytes a word; bytes that do not fill a word are left out. -/
def words : List UInt8 → List UInt32
  | a :: b :: c :: d :: rest => UInt32.ofNat (BigEndian.value [a, b, c, d]) :: words rest
  | _ => []

/-- The first `n` groups of sixteen words. -/
def blocks : Nat → List UInt32 → List (List UInt32)
  | 0, _ => []
  | n + 1, ws => ws.take 16 :: blocks n (ws.drop 16)

/-- The message, a one bit, zeros, and the length in bits: a multiple of 64 bytes. -/
def padded (message : List UInt8) : List UInt8 :=
  message ++ 0x80 :: List.replicate ((119 - message.length % 64) % 64) 0 ++
    BigEndian.fixed 8 (8 * message.length)

/-- The SHA-1 hash of a message, twenty bytes. -/
def sha1 (message : List UInt8) : List UInt8 :=
  let ws := words (padded message)
  ((blocks (ws.length / 16) ws).foldl compress Sha1State.start).bytes

/-- The hash of the letters `abc`. -/
example : sha1 [0x61, 0x62, 0x63] =
    [0xA9, 0x99, 0x3E, 0x36, 0x47, 0x06, 0x81, 0x6A, 0xBA, 0x3E, 0x25, 0x71, 0x78, 0x50, 0xC2, 0x6C, 0x9C, 0xD0, 0xD8,
      0x9D] := by
  decide +kernel

/-- A message of 56 bytes, whose padding takes a second block. -/
example : sha1 ((List.range 14).flatMap fun i => (List.range 4).map fun j => UInt8.ofNat (0x61 + i + j)) =
    [0x84, 0x98, 0x3E, 0x44, 0x1C, 0x3B, 0xD2, 0x6E, 0xBA, 0xAE, 0x4A, 0xA1, 0xF9, 0x51, 0x29, 0xE5, 0xE5, 0x46, 0x70,
      0xF1] := by
  decide +kernel

end CertExtensions.Hash
