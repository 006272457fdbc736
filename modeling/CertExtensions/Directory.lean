/-!
# Directories

The files of a directory, by name. Main statement: a written file has the new content, and every other file has the
one that it had before (`content?_write`).
-/

namespace CertExtensions

/-- The files of a directory, by name. -/
structure Directory where
  files : List (String × List UInt8)
  deriving DecidableEq, Repr

namespace Directory

def content? (directory : Directory) (file : String) : Option (List UInt8) :=
  (directory.files.find? (·.1 = file)).map (·.2)

/-- Puts a file among others, in the place of one with the same name. -/
def writeEntry (file : String) (bytes : List UInt8) :
    List (String × List UInt8) → List (String × List UInt8)
  | [] => [(file, bytes)]
  | (other, old) :: rest =>
    if file = other then (file, bytes) :: rest else (other, old) :: writeEntry file bytes rest

/-- The directory after a file has been written. -/
def write (directory : Directory) (file : String) (bytes : List UInt8) : Directory :=
  ⟨writeEntry file bytes directory.files⟩

theorem content?_write (directory : Directory) (written file : String) (bytes : List UInt8) :
    (directory.write written bytes).content? file =
      if file = written then some bytes else directory.content? file := by
  obtain ⟨files⟩ := directory
  simp only [write, content?]
  induction files with
  | nil => by_cases h : file = written <;> simp [writeEntry, h, eq_comm]
  | cons entry rest ih =>
    obtain ⟨other, old⟩ := entry
    simp only [writeEntry]
    split
    · next heq => subst heq; by_cases h : file = written <;> simp [h, eq_comm]
    · next hne =>
      by_cases h : other = file
      · have : file ≠ written := fun hw => hne (hw.symm.trans h.symm)
        simp [h, this]
      · simp [h, ih]

end Directory

end CertExtensions
