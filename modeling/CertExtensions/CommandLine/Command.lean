import CertExtensions.CommandLine.Argument

/-!
# Commands

Four commands on files: `show` and `dump` print the extensions of a certificate or request and those of a stored set,
`export` stores the extensions of a certificate or request, and `update` gives a stored set new key identifiers.
-/

namespace CertExtensions

/-- What is asked for, with the names of the files. -/
inductive Command where
  | showInput (linkUris : Bool) (input : String)
  | exportInput (output input : String)
  | dumpSet (linkUris : Bool) (stored : String)
  | updateSet (subjectKey issuer : String) (output? : Option String) (stored : String)
  deriving DecidableEq, Repr

/-- What stands behind the name of a command. -/
structure Arguments where
  switches : List CommandOption
  settings : List (CommandOption × String)
  files : List String
  strays : List String
  deriving DecidableEq, Repr

/-- Sorts the parts of the arguments, each kind in order. -/
def Arguments.ofTokens : List Token → Arguments
  | [] => ⟨[], [], [], []⟩
  | token :: rest =>
    let sorted := ofTokens rest
    match token with
    | .switch option => { sorted with switches := option :: sorted.switches }
    | .setting option value => { sorted with settings := (option, value) :: sorted.settings }
    | .word text | .operand text => { sorted with files := text :: sorted.files }
    | .stray argument => { sorted with strays := argument :: sorted.strays }

namespace Command

/-- A command that prints: one file, and whether URIs become links. -/
def printing? (command : Bool → String → Command) : Arguments → Option Command
  | ⟨[], [], [file], []⟩ => some (command false file)
  | ⟨[.linkUris], [], [file], []⟩ => some (command true file)
  | _ => none

/-- The command `export`: one file and the one to write. -/
def export? : Arguments → Option Command
  | ⟨[], [(.output, output)], [input], []⟩ => some (exportInput output input)
  | _ => none

/-- The command `update`: one file and its settings, each at most once and all but the output at least once. -/
def update? : Arguments → Option Command
  | ⟨[], settings, [stored], []⟩ =>
    if (settings.map (·.1)).Nodup then
      match settings.lookup .subjectKey, settings.lookup .issuer with
      | some subjectKey, some issuer =>
        some (updateSet subjectKey issuer (settings.lookup .output) stored)
      | _, _ => none
    else none
  | _ => none

def ofName? (name : String) (arguments : Arguments) : Option Command :=
  if name = "show" then printing? showInput arguments
  else if name = "export" then export? arguments
  else if name = "dump" then printing? dumpSet arguments
  else if name = "update" then update? arguments
  else none

/-- The parts of the arguments apart from the option for more messages, which may stand anywhere once. -/
def tokens (arguments : List String) : List Token :=
  (Token.scan arguments).erase (.switch .verbose)

/-- The command that arguments ask for. Its name is the first part of them. -/
def ofArguments? (arguments : List String) : Option Command :=
  match tokens arguments with
  | .word name :: rest => ofName? name (.ofTokens rest)
  | _ => none

def inputs : Command → List String
  | showInput _ input | exportInput _ input => [input]
  | dumpSet _ stored => [stored]
  | updateSet subjectKey issuer _ stored => [stored, subjectKey, issuer]

end Command

end CertExtensions
