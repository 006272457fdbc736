import CertExtensions.CommandLine.Command

/-!
# Help

Instead of running a command, the program can tell how it is used, how one of its commands is used, and which version it
has. It does so only for arguments that are not those of a command, but whatever else is wrong with them (`notice?`).
-/

namespace CertExtensions

/-- How the program or one of its commands is used: what it does, its arguments, and these one by one under titles. -/
structure Manual where
  about : String
  usage : String
  topics : List (String × List (String × String))
  deriving DecidableEq, Repr

namespace Manual

/-- A line for each argument, with what it is for in a second column. -/
def rows (width : Nat) (items : List (String × String)) : String :=
  String.join <| items.map fun (form, about) =>
    "    " ++ form ++ String.ofList (List.replicate (width - form.length + 2) ' ') ++ about ++ "\n"

def text (manual : Manual) : String :=
  let width := (manual.topics.flatMap fun (_, items) => items.map (·.1.length)).foldl max 0
  manual.about ++ "\n\nUsage: x509ext-cli " ++ manual.usage ++ "\n" ++
    String.join (manual.topics.map fun (title, items) => "\n" ++ title ++ ":\n" ++ rows width items)

def helpItem : String × String := ("-h, --help", "Prints help information")

def showInput : Manual where
  about := "Render the extensions of a certificate or certificate signing request"
  usage := "show [--link-uris] INPUT"
  topics := [
    ("Available positional items", [("INPUT", "Certificate or CSR, PEM or DER")]),
    ("Available options", [("    --link-uris", "Wrap URIs in HTML anchors"), helpItem])]

def exportInput : Manual where
  about := "Store the extensions of a certificate or CSR in an extension set file"
  usage := "export -o=output.x509ext INPUT"
  topics := [
    ("Available positional items", [("INPUT", "Certificate or CSR, PEM or DER")]),
    ("Available options", [("-o, --output=output.x509ext", "Extension set file to write"), helpItem])]

def dumpSet : Manual where
  about := "Render the extensions stored in an extension set file"
  usage := "dump [--link-uris] SET"
  topics := [
    ("Available positional items", [("SET", "Extension set file")]),
    ("Available options", [("    --link-uris", "Wrap URIs in HTML anchors"), helpItem])]

def updateSet : Manual where
  about := "Regenerate the key identifiers of an extension set file"
  usage := "update --subject-key=key.pem --issuer=ca.pem [-o=output.x509ext] SET"
  topics := [
    ("Available positional items", [("SET", "Extension set file")]),
    ("Available options", [
      ("    --subject-key=key.pem",
        "Public key of the new subject: SubjectPublicKeyInfo, certificate or CSR"),
      ("    --issuer=ca.pem", "Certificate of the issuer"),
      ("-o, --output=output.x509ext", "Where to write the updated set, defaults to SET"),
      helpItem])]

/-- The commands by their names. -/
def commands : List (String × Manual) :=
  [("show", showInput), ("export", exportInput), ("dump", dumpSet), ("update", updateSet)]

def program : Manual where
  about := "x509ext X.509 extension inspector"
  usage := "[-v] COMMAND ..."
  topics := [
    ("Available options", [
      ("-v, --verbose", "Log debug output to stderr (RUST_LOG overrides)"),
      helpItem,
      ("-V, --version", "Prints version information")]),
    ("Available commands", commands.map fun (name, manual) => (name, manual.about))]

end Manual

def versionText : String := "Version: 0.1.0\n"

/-- What the program tells instead of running a command: how a command is used if help is asked for behind its name, and
otherwise how the program is used or which version it has. -/
def told? (tokens : List Token) : Option String :=
  let named? :=
    match tokens with
    | .word name :: _ => Manual.commands.lookup name
    | _ => none
  match named? with
  | some manual => if .switch .help ∈ tokens then some manual.text else none
  | none =>
    if .switch .help ∈ tokens then some Manual.program.text
    else if .switch .version ∈ tokens then some versionText
    else none

/-- What is printed without a command, with an empty line behind it. -/
def notice? (arguments : List String) : Option String :=
  (told? (Command.tokens arguments)).map (· ++ "\n")

end CertExtensions
