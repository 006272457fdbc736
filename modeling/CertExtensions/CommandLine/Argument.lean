/-!
# Arguments

The arguments of a command line fall into options, options with values, and words. Options have a long form behind
two hyphens, which takes a value behind an equals sign, and some have a short form of one letter, which may share an
argument with others and takes a value immediately behind it. A value may always be the next argument, as long as
that is a word. Arguments that are none of these do not keep the others from being read.
-/

namespace CertExtensions

inductive CommandOption where
  | verbose
  | linkUris
  | output
  | subjectKey
  | issuer
  | help
  | version
  deriving DecidableEq, Repr

namespace CommandOption

def all : List CommandOption := [verbose, linkUris, output, subjectKey, issuer, help, version]

/-- The name of the option in its long form. -/
def longName : CommandOption → String
  | verbose => "verbose"
  | linkUris => "link-uris"
  | output => "output"
  | subjectKey => "subject-key"
  | issuer => "issuer"
  | help => "help"
  | version => "version"

/-- The letter of the option, if it has a short form. -/
def letter? : CommandOption → Option Char
  | verbose => some 'v'
  | output => some 'o'
  | help => some 'h'
  | version => some 'V'
  | linkUris | subjectKey | issuer => none

def ofLongName? (name : List Char) : Option CommandOption :=
  all.find? (·.longName.toList = name)

def ofLetter? (letter : Char) : Option CommandOption :=
  all.find? (·.letter? = some letter)

def takesValue : CommandOption → Bool
  | verbose | linkUris | help | version => false
  | output | subjectKey | issuer => true

end CommandOption

/-- A part of the arguments. -/
inductive Token where
  /-- an option without value -/
  | switch (option : CommandOption)
  /-- an option with its value -/
  | setting (option : CommandOption) (value : String)
  | word (text : String)
  /-- a word behind the end of the options -/
  | operand (text : String)
  /-- an argument that would be an option, but has no such name, or not the value that it needs -/
  | stray (argument : String)
  deriving DecidableEq, Repr

namespace Token

/-- Whether an argument is a word and not an option: it does not begin with a hyphen, or is nothing but one. -/
def isWord : List Char → Bool
  | '-' :: _ :: _ => false
  | _ => true

/-- The options in short form that stand together in one argument; what follows one that takes a value is its value.
The second part is the option that gets its value from the next argument. -/
def ofCluster? : List Char → Option (List Token × Option CommandOption)
  | [] => some ([], none)
  | letter :: rest =>
    match CommandOption.ofLetter? letter with
    | none => none
    | some option =>
      if option.takesValue then
        match rest with
        | [] => some ([], some option)
        | '=' :: value => some ([.setting option (String.ofList value)], none)
        | value => some ([.setting option (String.ofList value)], none)
      else (ofCluster? rest).map fun (tokens, waiting?) => (.switch option :: tokens, waiting?)

/-- The option in long form, with a value behind an equals sign. The second part is the option that gets its value from
the next argument. -/
def ofLongForm? (argument : List Char) : Option (List Token × Option CommandOption) :=
  match CommandOption.ofLongName? (argument.takeWhile (· ≠ '=')), argument.dropWhile (· ≠ '=') with
  | none, _ => none
  | some option, [] => if option.takesValue then some ([], some option) else some ([.switch option], none)
  | some option, _ :: value =>
    if option.takesValue then some ([.setting option (String.ofList value)], none) else none

/-- The parts of an argument, and the option that waits for its value. -/
def ofArgument (argument : String) : List Token × Option CommandOption :=
  match argument.toList with
  | '-' :: '-' :: name => (ofLongForm? name).getD ([.stray argument], none)
  | '-' :: c :: rest => (ofCluster? (c :: rest)).getD ([.stray argument], none)
  | _ => ([.word argument], none)

/-- The parts of the arguments. Behind two hyphens alone there are no options. -/
def scan : List String → List Token
  | [] => []
  | argument :: rest =>
    if argument = "--" then rest.map operand
    else
      match ofArgument argument with
      | (tokens, none) => tokens ++ scan rest
      | (tokens, some option) =>
        match rest with
        | [] => tokens ++ [.stray argument]
        | value :: more =>
          if isWord value.toList then tokens ++ .setting option value :: scan more
          else tokens ++ .stray argument :: scan (value :: more)

end Token

end CertExtensions
