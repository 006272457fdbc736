import CertExtensions.CommandLine.Run
import CertExtensions.Proofs.ExtensionSet.CertifiedSequence
import CertExtensions.Proofs.ExtensionSet.StoredWriter
import CertExtensions.Proofs.Input

/-!
# What a run does to files

All files are read before one is written, so a command may write a file that it has read. A command describes or stores
one set (`Command.Yields`). `Command.Ends` says what a command that comes to its end has printed and what it has done to
the files of the directory: commands that print have done nothing, and the others have stored the set in one file. A
set with a count or length that is too large has no stored form, which turns out when the file is being written; then
the file holds the beginning of the stored form (`Command.StopsStoring`). Every run of a command goes one of these two
ways if the command can go it, and otherwise does nothing at all; and without a command nothing is done to the files
(`run_frame`). Through any number of runs a file that no command writes keeps its content (`content?_runAll`).
-/

namespace CertExtensions

variable {before after : Directory} {file printed : String} {set : ExtensionSet} {effect : Effect}

/-! ### Files -/

namespace Directory

/-- Whether a file that has a name holds the stored set, and every other file what it has held before. -/
def Stores (before : Directory) (file : String) (set : ExtensionSet) (after : Directory) : Prop :=
  ¬file.isEmpty ∧ ∃ bytes, set.save = .ok bytes ∧
    ∀ other, after.content? other = if other = file then some bytes else before.content? other

/-- Whether a file that has a name holds the stored form of a set up to a count or length that is too large for it, and
every other file what it has held before. -/
def StoresBeginning (before : Directory) (file : String) (set : ExtensionSet) (after : Directory) : Prop :=
  ¬file.isEmpty ∧ ∃ n written, 2 ^ 31 ≤ n ∧ set.putStored [] = .error (.oversize n) written ∧
    written ++ ExtensionSet.countBytes n <+:
      ExtensionSet.storedBytes set.criticalPart.entries set.nonCriticalPart.entries ∧
    ∀ other, after.content? other = if other = file then some written else before.content? other

end Directory

/-! ### Effects -/

namespace Effect

private theorem describing_eq_ok_iff {linkUris : Bool} :
    describing linkUris set = .ok effect ↔ ∃ text, set.describe { linkUris } = .ok text ∧ effect = .print text := by
  unfold describing
  cases set.describe { linkUris } with
  | error error => simp
  | ok text => simp [eq_comm]

private theorem not_isEmpty_of_storing (h : storing file set = .ok effect) : ¬file.isEmpty := by
  intro hfile
  rw [storing, if_pos hfile] at h
  cases h

/-- In a file that has a name, a set is stored as a whole or up to a number that is too large. -/
private theorem storing_cases (before : Directory) (hfile : ¬file.isEmpty) (set : ExtensionSet) :
    ∃ effect, storing file set = .ok effect ∧ (effect.result before).printed = "" ∧
      ((effect.result before).code = 0 ∧ before.Stores file set (effect.result before).directory ∨
        (effect.result before).code = 1 ∧ before.StoresBeginning file set (effect.result before).directory) := by
  have hcontent : ∀ bytes other, (before.write file bytes).content? other =
      if other = file then some bytes else before.content? other :=
    fun bytes other => Directory.content?_write before file other bytes
  rw [storing, if_neg hfile]
  by_cases hfits : ExtensionSet.BlockFits set.criticalPart.entries ∧ ExtensionSet.BlockFits set.nonCriticalPart.entries
  · rw [ExtensionSet.putStored_of_blockFits hfits.1 hfits.2]
    exact ⟨_, rfl, rfl, .inl ⟨rfl, hfile, _, ExtensionSet.save_of_blockFits hfits.1 hfits.2, hcontent _⟩⟩
  · obtain ⟨n, written, hn, herror, hprefix⟩ := ExtensionSet.exists_putStored_eq_error hfits
    rw [herror]
    exact ⟨_, rfl, rfl, .inr ⟨rfl, hfile, n, written, hn, herror, hprefix, hcontent written⟩⟩

end Effect

/-! ### Commands -/

namespace Command

/-- Whether this is the set that the command describes or stores. -/
def Yields (before : Directory) (set : ExtensionSet) : Command → Prop
  | showInput _ input | exportInput _ input => ExtensionSet.ofFile (before.content? input) = .ok set
  | dumpSet _ stored => ExtensionSet.loadFile (before.content? stored) = .ok set
  | updateSet subjectKey issuer _ stored =>
    ∃ loaded key owner, ExtensionSet.loadFile (before.content? stored) = .ok loaded ∧
      PublicKey.ofFile subjectKey (before.content? subjectKey) = .ok key ∧
      Issuer.ofFile (before.content? issuer) = .ok owner ∧ loaded.update key owner = .ok set

/-- The file that the command writes, if it writes one. -/
def output? : Command → Option String
  | showInput _ _ | dumpSet _ _ => none
  | exportInput output _ => some output
  | updateSet _ _ output? stored => some (output?.getD stored)

/-- Whether the command makes links of URIs. -/
def linkUris : Command → Bool
  | showInput linkUris _ | dumpSet linkUris _ => linkUris
  | exportInput _ _ | updateSet _ _ _ _ => false

/-- What a command that comes to its end has printed, and what it has done to the files. -/
def Ends (before : Directory) (printed : String) (after : Directory) (command : Command) : Prop :=
  ∃ set, command.Yields before set ∧
    match command.output? with
    | none => after = before ∧ set.describe { linkUris := command.linkUris } = .ok printed
    | some file => printed = "" ∧ before.Stores file set after

/-- What a command has done to the files that comes to a set without stored form. -/
def StopsStoring (before after : Directory) (command : Command) : Prop :=
  ∃ set file, command.Yields before set ∧ command.output? = some file ∧ before.StoresBeginning file set after

variable {command : Command}

/-- What the command makes of the set. -/
private def finish (command : Command) (set : ExtensionSet) : Except InputError Effect :=
  match command.output? with
  | none => Effect.describing command.linkUris set
  | some file => Effect.storing file set

private theorem effect_eq_ok_iff :
    command.effect before.content? = .ok effect ↔
      ∃ set, command.Yields before set ∧ command.finish set = .ok effect := by
  constructor
  · intro h
    cases command with
    | showInput linkUris input | exportInput output input =>
      obtain ⟨set, hset, h⟩ := Reader.bind_eq_ok h
      exact ⟨set, hset, h⟩
    | dumpSet linkUris stored =>
      obtain ⟨set, hset, h⟩ := Reader.bind_eq_ok h
      exact ⟨set, Reader.mapError_eq_ok_iff.mp hset, h⟩
    | updateSet subjectKey issuer output? stored =>
      obtain ⟨loaded, hloaded, h⟩ := Reader.bind_eq_ok h
      obtain ⟨key, hkey, h⟩ := Reader.bind_eq_ok h
      obtain ⟨owner, howner, h⟩ := Reader.bind_eq_ok h
      obtain ⟨set, hset, h⟩ := Reader.bind_eq_ok h
      exact ⟨set, ⟨loaded, key, owner, Reader.mapError_eq_ok_iff.mp hloaded, hkey, howner,
        Reader.mapError_eq_ok_iff.mp hset⟩, h⟩
  · rintro ⟨set, hyields, h⟩
    cases command with
    | showInput linkUris input | exportInput output input =>
      rw [Command.effect, show ExtensionSet.ofFile (before.content? input) = .ok set from hyields]
      exact h
    | dumpSet linkUris stored =>
      rw [Command.effect, storedSet, show ExtensionSet.loadFile (before.content? stored) = .ok set from hyields]
      exact h
    | updateSet subjectKey issuer output? stored =>
      obtain ⟨loaded, key, owner, hloaded, hkey, howner, hset⟩ := hyields
      rw [Command.effect, storedSet, hloaded, hkey, howner]
      change ((loaded.update key owner).mapError InputError.contents >>= _) = _
      rw [hset]
      exact h

/-- A command that comes to something has ended, or has stopped storing a set. -/
private theorem ends_or_stopsStoring (h : command.effect before.content? = .ok effect) :
    (effect.result before).code = 0 ∧
        command.Ends before (effect.result before).printed (effect.result before).directory ∨
      (effect.result before).code = 1 ∧ (effect.result before).printed = "" ∧
        command.StopsStoring before (effect.result before).directory := by
  obtain ⟨set, hyields, hfinish⟩ := effect_eq_ok_iff.mp h
  unfold finish at hfinish
  split at hfinish
  · next houtput =>
    obtain ⟨text, htext, rfl⟩ := Effect.describing_eq_ok_iff.mp hfinish
    refine .inl ⟨rfl, set, hyields, ?_⟩
    rw [houtput]
    exact ⟨rfl, htext⟩
  · next file houtput =>
    obtain ⟨found, hfound, hprinted, hstores⟩ :=
      Effect.storing_cases before (Effect.not_isEmpty_of_storing hfinish) set
    obtain rfl : found = effect := Except.ok.inj (hfound.symm.trans hfinish)
    obtain ⟨hcode, hstores⟩ | ⟨hcode, hstores⟩ := hstores
    · refine .inl ⟨hcode, set, hyields, ?_⟩
      rw [houtput]
      exact ⟨hprinted, hstores⟩
    · exact .inr ⟨hcode, hprinted, set, file, hyields, houtput, hstores⟩

private theorem exists_effect_of_output? (hyields : command.Yields before set) (houtput : command.output? = some file)
    (hfile : ¬file.isEmpty) : ∃ effect, command.effect before.content? = .ok effect := by
  obtain ⟨effect, heffect, -⟩ := Effect.storing_cases before hfile set
  refine ⟨effect, effect_eq_ok_iff.mpr ⟨set, hyields, ?_⟩⟩
  rw [finish, houtput]
  exact heffect

/-- A command that can come to its end does not fail before. -/
private theorem Ends.exists_effect (h : command.Ends before printed after) :
    ∃ effect, command.effect before.content? = .ok effect := by
  obtain ⟨set, hyields, hends⟩ := h
  split at hends
  · next houtput =>
    refine ⟨.print printed, effect_eq_ok_iff.mpr ⟨set, hyields, ?_⟩⟩
    rw [finish, houtput]
    exact Effect.describing_eq_ok_iff.mpr ⟨printed, hends.2, rfl⟩
  · next file houtput => exact exists_effect_of_output? hyields houtput hends.2.1

private theorem StopsStoring.exists_effect (h : command.StopsStoring before after) :
    ∃ effect, command.effect before.content? = .ok effect := by
  obtain ⟨set, file, hyields, houtput, hfile, -⟩ := h
  exact exists_effect_of_output? hyields houtput hfile

private theorem Ends.content? (h : command.Ends before printed after) (hfile : command.output? ≠ some file) :
    after.content? file = before.content? file := by
  obtain ⟨set, -, hends⟩ := h
  split at hends
  · rw [hends.1]
  · next output houtput =>
    obtain ⟨-, -, bytes, -, hcontent⟩ := hends
    rw [hcontent, if_neg fun heq => hfile (houtput.trans (congrArg some heq.symm))]

private theorem StopsStoring.content? (h : command.StopsStoring before after) (hfile : command.output? ≠ some file) :
    after.content? file = before.content? file := by
  obtain ⟨set, output, -, houtput, -, n, written, -, -, -, hcontent⟩ := h
  rw [hcontent, if_neg fun heq => hfile (houtput.trans (congrArg some heq.symm))]

private theorem result_of_effect (h : command.effect before.content? = .ok effect) :
    command.result before = effect.result before := by
  simp only [result, h]

/-- A command ends, stops storing a set, or does nothing at all because it can do neither. -/
theorem result_cases (command : Command) (before : Directory) :
    let result := command.result before
    (result.code = 0 ∧ command.Ends before result.printed result.directory) ∨
      (result.code = 1 ∧ result.printed = "" ∧ command.StopsStoring before result.directory) ∨
      result = .failed before ∧
        ∀ printed after, ¬command.Ends before printed after ∧ ¬command.StopsStoring before after := by
  dsimp only
  cases heffect : command.effect before.content? with
  | ok effect =>
    rw [result_of_effect heffect]
    exact (ends_or_stopsStoring heffect).elim .inl fun h => .inr (.inl h)
  | error error =>
    have hnone : ∀ effect, command.effect before.content? ≠ .ok effect := by simp [heffect]
    refine .inr (.inr ⟨by simp only [result, heffect], fun printed after => ⟨fun h => ?_, fun h => ?_⟩⟩)
    · obtain ⟨effect, h⟩ := h.exists_effect
      exact hnone effect h
    · obtain ⟨effect, h⟩ := h.exists_effect
      exact hnone effect h

private theorem content?_result (before : Directory) (hfile : command.output? ≠ some file) :
    (command.result before).directory.content? file = before.content? file := by
  obtain ⟨-, hends⟩ | ⟨-, -, hstops⟩ | ⟨hfailed, -⟩ := result_cases command before
  · exact hends.content? hfile
  · exact hstops.content? hfile
  · rw [hfailed]
    rfl

end Command

/-! ### Runs -/

variable {arguments : List String}

theorem run_of_command {command : Command} (h : Command.ofArguments? arguments = some command)
    (directory : Directory) : run arguments directory = command.result directory := by
  rw [run, h]

private theorem directory_run_of_none (h : Command.ofArguments? arguments = none) (directory : Directory) :
    (run arguments directory).directory = directory := by
  rw [run, h]
  cases notice? arguments <;> rfl

section Oversize

open Asn1

variable {octets : List UInt8}

end Oversize

private theorem content?_run (directory : Directory)
    (h : ∀ command, Command.ofArguments? arguments = some command → command.output? ≠ some file) :
    (run arguments directory).directory.content? file = directory.content? file := by
  cases harguments : Command.ofArguments? arguments with
  | some command =>
    rw [run_of_command harguments]
    exact command.content?_result directory (h command harguments)
  | none => rw [directory_run_of_none harguments]

/-- The directory after one run for each list of arguments, one after the other. -/
def runAll (argumentLists : List (List String)) (directory : Directory) : Directory :=
  argumentLists.foldl (fun left arguments => (run arguments left).directory) directory

/-- A file that no command writes keeps its content. -/
theorem content?_runAll {argumentLists : List (List String)} (directory : Directory)
    (h : ∀ arguments ∈ argumentLists, ∀ command, Command.ofArguments? arguments = some command →
      command.output? ≠ some file) :
    (runAll argumentLists directory).content? file = directory.content? file := by
  induction argumentLists generalizing directory with
  | nil => rfl
  | cons arguments argumentLists ih =>
    obtain ⟨hfirst, hmore⟩ := List.forall_mem_cons.mp h
    exact (ih (run arguments directory).directory hmore).trans (content?_run directory hfirst)

end CertExtensions
