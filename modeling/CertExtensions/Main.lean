import CertExtensions.CommandLine.Run

/-!
# The program

Reads the files that a command asks for, and does what comes out of it.
-/

namespace CertExtensions

/-- The content of a file, if it can be read. -/
def readFile? (file : String) : IO (Option (List UInt8)) := do
  try
    let bytes ← IO.FS.readBinFile file
    return some bytes.data.toList
  catch _ => return none

def complain (message : String) : IO UInt32 := do
  IO.eprintln ("Error: " ++ message)
  return 1

/-- Does what a command does in the end, and gives the exit code. -/
def Effect.perform : Effect → IO UInt32
  | .print text => do
    IO.print text
    return 0
  | .write file bytes error? => do
    IO.FS.writeBinFile file ⟨bytes.toArray⟩
    match error? with
    | none => return 0
    | some error => complain error.message

end CertExtensions

open CertExtensions

/-- Runs the command that the arguments ask for. -/
def main (arguments : List String) : IO UInt32 := do
  match Command.ofArguments? arguments with
  | none =>
    match notice? arguments with
    | some text =>
      IO.print text
      return 0
    | none =>
      IO.eprint Manual.program.text
      return 1
  | some command =>
    let files ← command.inputs.mapM fun file => do
      return (file, ← readFile? file)
    match command.effect fun file => (files.lookup file).join with
    | .error error => complain error.message
    | .ok effect => effect.perform
