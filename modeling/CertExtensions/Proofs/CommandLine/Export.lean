import CertExtensions.Proofs.Certificate.SmallCertificate
import CertExtensions.Proofs.CommandLine.Arguments
import CertExtensions.Proofs.CommandLine.Frame
import CertExtensions.Proofs.ExtensionSet.CanonicalOutput

/-!
# Exporting and dumping

The set that `export` stores is the one that `show` describes, and `dump` loads it again. So `dump` of what has been
exported prints what `show` prints, and fails where `show` fails (`dump_of_export`). The names of an `export` that has
succeeded are words, and so they name the same files in the arguments of the other two commands (`dump_after_export`).
-/

namespace CertExtensions

variable {output input : String} {linkUris : Bool} {directory : Directory}

/-! ### Printing -/

/-- Two commands that come to the same end print the same, whatever directories they run in. -/
private theorem run_eq_of_effect {arguments others : List String} {command other : Command} {after : Directory}
    (hcommand : Command.ofArguments? arguments = some command) (hother : Command.ofArguments? others = some other)
    (h : command.effect after.content? = other.effect directory.content?) :
    (run arguments after).code = (run others directory).code ∧
      (run arguments after).printed = (run others directory).printed := by
  rw [run_of_command hcommand, run_of_command hother, Command.result, Command.result, h]
  cases other.effect directory.content? with
  | error error => exact ⟨rfl, rfl⟩
  | ok effect =>
    cases effect with
    | print text => exact ⟨rfl, rfl⟩
    | write file bytes error? => cases error? <;> exact ⟨rfl, rfl⟩

private theorem exists_set_of_export {exporting : List String}
    (hexport : Command.ofArguments? exporting = some (.exportInput output input))
    (h : (run exporting directory).code = 0) :
    ∃ set bytes, ExtensionSet.ofFile (directory.content? input) = .ok set ∧ set.save = .ok bytes ∧
      (run exporting directory).directory.content? output = some bytes := by
  rw [run_of_command hexport] at h ⊢
  obtain ⟨-, set, hset, -, -, bytes, hsave, hcontent⟩ | ⟨hcode, -⟩ | ⟨hfailed, -⟩ :=
    Command.result_cases (.exportInput output input) directory
  · refine ⟨set, bytes, hset, hsave, ?_⟩
    rw [hcontent, if_pos rfl]
  · rw [h] at hcode
    cases hcode
  · rw [hfailed] at h
    cases h

/-- Whatever arguments ask for the three commands. -/
theorem dump_of_export {exporting dumping showing : List String}
    (hexport : Command.ofArguments? exporting = some (.exportInput output input))
    (hdump : Command.ofArguments? dumping = some (.dumpSet linkUris output))
    (hshow : Command.ofArguments? showing = some (.showInput linkUris input))
    (h : (run exporting directory).code = 0) :
    let dumped := run dumping (run exporting directory).directory
    let shown := run showing directory
    dumped.code = shown.code ∧ dumped.printed = shown.printed := by
  obtain ⟨set, bytes, hset, hsave, hcontent⟩ := exists_set_of_export hexport h
  refine run_eq_of_effect hdump hshow ?_
  have hstored : storedSet (some bytes) = .ok set := by
    rw [storedSet, ExtensionSet.loadFile, ExtensionSet.load_of_save hsave]
    rfl
  rw [Command.effect, Command.effect, hcontent, hstored, hset]

/-! ### Names of files -/

/-- If a file has been exported, `dump` of the output prints what `show` of the input prints, or both fail. The
arguments are those of a command unless one of the names is an option, and then nothing is exported. -/
theorem dump_after_export (linkUris : Bool) (output input : String) (directory : Directory)
    (hcommand : Command.ofArguments? ["export", "-o", output, input] ≠ none)
    (h : (run ["export", "-o", output, input] directory).code = 0) :
    let exported := (run ["export", "-o", output, input] directory).directory
    let dumped := run (Command.printing "dump" linkUris output) exported
    let shown := run (Command.printing "show" linkUris input) directory
    dumped.code = shown.code ∧ dumped.printed = shown.printed := by
  have hexport := Command.ofArguments?_export output input
  split at hexport
  · next hwords =>
    exact dump_of_export hexport (Command.ofArguments?_dump hwords.1 linkUris)
      (Command.ofArguments?_show hwords.2 linkUris) h
  · exact absurd hexport hcommand

/-- A directory with one certificate. -/
def certificateOnly (extensions : List UInt8) : Directory :=
  ⟨[("ca.der", smallCertificate extensions)]⟩

/-- Alternative names, once with a URI and once with nothing that can be read. -/
theorem dump_after_export_alternativeNames :
    let exporting := ["export", "-o", "set", "ca.der"]
    let dumping := Command.printing "dump" true "set"
    let showing := Command.printing "show" true "ca.der"
    let readable := certificateOnly [48, 14, 48, 12, 6, 3, 85, 29, 17, 4, 5, 48, 3, 134, 1, 97]
    let unreadable := certificateOnly [48, 10, 48, 8, 6, 3, 85, 29, 17, 4, 1, 5]
    ((run exporting readable).code = 0 ∧ (run showing readable).code = 0 ∧
      (run dumping (run exporting readable).directory).code = (run showing readable).code ∧
      (run dumping (run exporting readable).directory).printed = (run showing readable).printed) ∧
    (run exporting unreadable).code = 0 ∧ (run showing unreadable).code = 1 ∧
      (run dumping (run exporting unreadable).directory).code = (run showing unreadable).code ∧
      (run dumping (run exporting unreadable).directory).printed = (run showing unreadable).printed := by
  intro exporting dumping showing readable unreadable
  have hcommand : Command.ofArguments? exporting ≠ none := by decide
  have hreadable : (run exporting readable).code = 0 := by decide
  have hunreadable : (run exporting unreadable).code = 0 := rfl
  have hshown : (run showing readable).code = 0 := by decide
  have hrefused : (run showing unreadable).code = 1 := rfl
  exact ⟨⟨hreadable, hshown, dump_after_export true "set" "ca.der" readable hcommand hreadable⟩,
    hunreadable, hrefused, dump_after_export true "set" "ca.der" unreadable hcommand hunreadable⟩

end CertExtensions
