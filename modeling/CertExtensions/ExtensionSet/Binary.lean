import CertExtensions.Error
import CertExtensions.ExtensionSet.Basic
import CertExtensions.Text.Utf16

/-!
# The stored form of a set

A stored set is a number that marks the format, the version of the format, and two blocks of entries, those of the
critical extensions and those of the others. A block starts with the number of its entries; an entry is an identifier
in UTF-16 and a value, each behind its length. Numbers are big-endian; the mark has eight bytes, and every other one
four bytes with a sign.

* `save` writes the entries of each block in ascending order;
* `load` takes entries in any order and any number of entries for an identifier, of which the last one counts; what
  comes behind the second block does not matter.
-/

namespace CertExtensions

def Partition.Entry.units (entry : Partition.Entry) : List Nat :=
  Text.Utf16.units entry.identifier.toList

namespace ExtensionSet

def mark : Nat := 0x47911131

def version : Nat := 1

/-! ### Writing -/

/-- Writes part of a stored set behind the bytes that are there. An error ends the writing; what has been written until
then stays. -/
abbrev StoredWriter := EStateM Error (List UInt8) Unit

def putBytes (bytes : List UInt8) : StoredWriter :=
  modify (· ++ bytes)

/-- Counts and lengths from here on have no stored form. -/
def countLimit : Nat := 0x80000000

def countBytes (n : Nat) : List UInt8 :=
  BigEndian.fixed 4 n

def putCount (n : Nat) : StoredWriter :=
  if n < countLimit then putBytes (countBytes n) else throw (.oversize n)

def putEntry (entry : Partition.Entry) : StoredWriter := do
  putCount entry.units.length
  putBytes (Text.Utf16.unitBytes entry.units)
  putCount entry.value.length
  putBytes entry.value

def putEntries : List Partition.Entry → StoredWriter
  | [] => return
  | entry :: rest => do
    putEntry entry
    putEntries rest

def putBlock (entries : List Partition.Entry) : StoredWriter := do
  putCount entries.length
  putEntries entries

def putStored (set : ExtensionSet) : StoredWriter := do
  putBytes (BigEndian.fixed 8 mark)
  putBytes (countBytes version)
  putBlock set.criticalPart.entries
  putBlock set.nonCriticalPart.entries

/-- The bytes of the stored set; the first count or length without stored form is an error. -/
def save (set : ExtensionSet) : Except Error (List UInt8) :=
  match set.putStored [] with
  | .ok _ bytes => .ok bytes
  | .error error _ => .error error

/-! ### Reading -/

/-- Reads fields off the bytes that are left of a stored set. -/
abbrev StoredFields := StateT (List UInt8) (Except Error)

def takeBytes (n : Nat) : StoredFields (List UInt8) := fun bytes =>
  let taken := bytes.take n
  if taken.length < n then .error (.load .truncated) else .ok (taken, bytes.drop n)

/-- A count or a length, which is not negative. -/
def takeCount : StoredFields Nat := do
  let bytes ← takeBytes 4
  let n := BigEndian.signedValue bytes
  if n < 0 then throw (.load (.negativeLength n)) else return n.toNat

def takeText (n : Nat) : StoredFields String := do
  let units := Text.Utf16.unitsOfBytes (← takeBytes (2 * n))
  match Text.Utf16.decode? units with
  | some text => return String.ofList text
  | none => throw (.identifier (String.ofList (Text.Utf16.decodeLossy units)))

def takeEntry : StoredFields Partition.Entry := do
  let identifier ← takeText (← takeCount)
  let value ← takeBytes (← takeCount)
  return ⟨identifier, value⟩

def takeEntries : Nat → StoredFields (List Partition.Entry)
  | 0 => return []
  | n + 1 => do
    let entry ← takeEntry
    let more ← takeEntries n
    return entry :: more

def takeBlock : StoredFields (List Partition.Entry) := do
  takeEntries (← takeCount)

def takeMark : StoredFields Unit := do
  let n := BigEndian.value (← takeBytes 8)
  if n ≠ mark then throw (.load (.magic n))

def takeVersion : StoredFields Unit := do
  let n := BigEndian.signedValue (← takeBytes 4)
  if n ≠ version then throw (.load (.version n))

/-- The entries of the critical extensions and those of the others. -/
def takeStored : StoredFields (List Partition.Entry × List Partition.Entry) := do
  takeMark
  takeVersion
  let critical ← takeBlock
  let nonCritical ← takeBlock
  return (critical, nonCritical)

/-- The set of stored entries: each takes the place of those before it with the same identifier. -/
def ofEntries (critical nonCritical : List Partition.Entry) : ExtensionSet :=
  (empty.insertAll (critical.map (·.extension true))).insertAll (nonCritical.map (·.extension false))

/-- The stored set that the bytes start with. -/
def load (bytes : List UInt8) : Except Error ExtensionSet := do
  let ((critical, nonCritical), _) ← takeStored.run bytes
  return ofEntries critical nonCritical

/-- The stored set in a file, given by its content if the file is there. -/
def loadFile : Option (List UInt8) → Except Error ExtensionSet
  | some bytes => load bytes
  | none => .error .missingFile

end ExtensionSet

end CertExtensions
