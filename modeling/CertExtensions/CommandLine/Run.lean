import CertExtensions.CommandLine.Help
import CertExtensions.Directory
import CertExtensions.ExtensionSet.Binary
import CertExtensions.ExtensionSet.Description
import CertExtensions.ExtensionSet.Update
import CertExtensions.Input

/-!
# Runs of commands

A command reads files and in the end does one thing: it prints one text or writes one file, and it begins to do so only
if nothing has gone wrong before. `Command.effect` says which, and `run` is a whole run in a directory. A file is
emptied before a set is stored in it, so a set that turns out to have no stored form leaves behind what has been written
of it.
-/

namespace CertExtensions

/-! ### Effects -/

/-- What a command does in the end. -/
inductive Effect where
  | print (text : String)
  /-- makes these bytes the content of a file, and then goes wrong if there is an error -/
  | write (file : String) (bytes : List UInt8) (error? : Option Error)
  deriving DecidableEq, Repr

namespace Effect

/-- Prints the description of a set. -/
def describing (linkUris : Bool) (set : ExtensionSet) : Except InputError Effect :=
  match set.describe { linkUris } with
  | .ok text => .ok (.print text)
  | .error error => .error (.contents error)

/-- Stores a set in a file, which must have a name. The file is there and empty before the set is written. -/
def storing (file : String) (set : ExtensionSet) : Except InputError Effect :=
  if file.isEmpty then .error (.contents .missingFile)
  else
    match set.putStored [] with
    | .ok _ bytes => .ok (.write file bytes none)
    | .error error bytes => .ok (.write file bytes (some error))

end Effect

def storedSet (bytes? : Option (List UInt8)) : Except InputError ExtensionSet :=
  (ExtensionSet.loadFile bytes?).mapError .contents

/-- What the command does, where `content?` tells the content of each file that is there. -/
def Command.effect (content? : String → Option (List UInt8)) : Command → Except InputError Effect
  | showInput linkUris input => do
    Effect.describing linkUris (← ExtensionSet.ofFile (content? input))
  | exportInput output input => do
    Effect.storing output (← ExtensionSet.ofFile (content? input))
  | dumpSet linkUris stored => do
    Effect.describing linkUris (← storedSet (content? stored))
  | updateSet subjectKey issuer output? stored => do
    let set ← storedSet (content? stored)
    let subjectKey ← PublicKey.ofFile subjectKey (content? subjectKey)
    let issuer ← Issuer.ofFile (content? issuer)
    let updated ← (set.update subjectKey issuer).mapError .contents
    Effect.storing (output?.getD stored) updated

/-! ### Runs -/

/-- What a run leaves behind: its exit code, what it has printed and the directory. -/
structure RunResult where
  code : Nat
  printed : String
  directory : Directory
  deriving DecidableEq, Repr

/-- The result of a run that has gone wrong. -/
def RunResult.failed (directory : Directory) : RunResult :=
  ⟨1, "", directory⟩

def Effect.result (directory : Directory) : Effect → RunResult
  | .print text => ⟨0, text, directory⟩
  | .write file bytes none => ⟨0, "", directory.write file bytes⟩
  | .write file bytes (some _) => .failed (directory.write file bytes)

/-- What a command leaves behind. -/
def Command.result (directory : Directory) (command : Command) : RunResult :=
  match command.effect directory.content? with
  | .error _ => .failed directory
  | .ok effect => effect.result directory

/-- A whole run. Where the arguments are not those of a command, nothing is done to the directory. -/
def run (arguments : List String) (directory : Directory) : RunResult :=
  match Command.ofArguments? arguments with
  | some command => command.result directory
  | none =>
    match notice? arguments with
    | some text => ⟨0, text, directory⟩
    | none => .failed directory

end CertExtensions
