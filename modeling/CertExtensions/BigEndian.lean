/-!
# Big-endian numbers

Byte strings read as unsigned numbers, most significant byte first, and numbers written with a given
number of bytes. Main statements:

* `length_fixed`: `fixed n v` has `n` bytes;
* `value_append_singleton`: a byte at the end counts as the lowest digit in base 256.
-/

namespace CertExtensions.BigEndian

/-- The unsigned number that the bytes form. -/
def value (bytes : List UInt8) : Nat :=
  bytes.foldl (fun n b => 256 * n + b.toNat) 0

/-- The lowest `n` bytes of a number. -/
def fixed : Nat → Nat → List UInt8
  | 0, _ => []
  | n + 1, v => fixed n (v / 256) ++ [UInt8.ofNat (v % 256)]

/-- The two's complement number that the bytes form; no bytes form zero. -/
def signedValue : List UInt8 → Int
  | [] => 0
  | b :: rest =>
    if b < 128 then value (b :: rest) else (value (b :: rest) : Int) - Nat.pow 256 (rest.length + 1)

/-- The digits of a number in base 256 without leading zeros, at most `fuel` of them. -/
def digits : Nat → Nat → List UInt8
  | 0, _ => []
  | fuel + 1, n => if n = 0 then [] else digits fuel (n / 256) ++ [UInt8.ofNat (n % 256)]

/-- The fewest bytes that form the number; zero needs none. -/
def shortest (n : Nat) : List UInt8 :=
  digits n n

@[simp] theorem length_fixed (n v : Nat) : (fixed n v).length = n := by
  induction n generalizing v with
  | zero => rfl
  | succ n ih => simp [fixed, ih]

@[simp] theorem value_nil : value [] = 0 := rfl

theorem value_append_singleton (bytes : List UInt8) (b : UInt8) :
    value (bytes ++ [b]) = 256 * value bytes + b.toNat := by
  simp [value, List.foldl_append]

end CertExtensions.BigEndian
