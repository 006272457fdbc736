import CertExtensions.CommandLine.Command

/-!
# Arguments of single commands

A name of a file is given as a word; what is no word holds options and no file (`Token.file?_of_ofArgument`). So the
arguments of `export` are read as the command if both names are words, and as no command otherwise
(`Command.ofArguments?_export`), and a word is what the commands that print take (`Command.ofArguments?_show`,
`Command.ofArguments?_dump`).
-/

namespace CertExtensions

/-! ### Parts of the arguments -/

namespace Token

/-- The file that the part names, if it names one. -/
def file? : Token → Option String
  | .word text | .operand text => some text
  | .switch _ | .setting _ _ | .stray _ => none

variable {tokens : List Token} {waiting? : Option CommandOption}

private theorem ofArgument_of_isWord {argument : String} (h : isWord argument.toList) :
    ofArgument argument = ([.word argument], none) := by
  unfold ofArgument
  split
  · next name hargument =>
    rw [hargument] at h
    cases h
  · next c rest _ hargument =>
    rw [hargument] at h
    cases h
  · rfl

private theorem file?_of_ofCluster? {letters : List Char} (h : ofCluster? letters = some (tokens, waiting?)) :
    ∀ token ∈ tokens, token.file? = none := by
  fun_induction ofCluster? letters generalizing tokens waiting? with
  | case1 =>
    cases h
    exact List.forall_mem_nil _
  | case2 => cases h
  | case3 =>
    cases h
    exact List.forall_mem_nil _
  | case4 | case5 =>
    cases h
    exact List.forall_mem_singleton.mpr rfl
  | case6 letter rest option _ _ ih =>
    obtain ⟨⟨more, _⟩, hmore, hcons⟩ := Option.map_eq_some_iff.mp h
    cases hcons
    exact List.forall_mem_cons.mpr ⟨rfl, ih hmore⟩

private theorem file?_of_ofLongForm? {argument : List Char} (h : ofLongForm? argument = some (tokens, waiting?)) :
    ∀ token ∈ tokens, token.file? = none := by
  unfold ofLongForm? at h
  split at h
  · cases h
  · split at h
    · cases h
      exact List.forall_mem_nil _
    · cases h
      exact List.forall_mem_singleton.mpr rfl
  · split at h
    · cases h
      exact List.forall_mem_singleton.mpr rfl
    · cases h

/-- An argument that is no word names no file. -/
theorem file?_of_ofArgument {argument : String} (hword : ¬isWord argument.toList) :
    ∀ token ∈ (ofArgument argument).1, token.file? = none := by
  have hstray : ∀ token ∈ [stray argument], token.file? = none := List.forall_mem_singleton.mpr rfl
  unfold ofArgument
  split
  · next name _ =>
    cases hform : ofLongForm? name with
    | none => exact hstray
    | some found => exact file?_of_ofLongForm? hform
  · next c rest _ _ =>
    cases hform : ofCluster? (c :: rest) with
    | none => exact hstray
    | some found => exact file?_of_ofCluster? hform
  · next hlong hshort =>
    refine absurd ?_ hword
    unfold isWord
    split
    · next c rest hargument =>
      by_cases hc : c = '-'
      · exact absurd (hc ▸ hargument) (hlong rest)
      · exact absurd hargument (hshort c rest)
    · rfl

private theorem scan_word {argument : String} (h : isWord argument.toList) (rest : List String) :
    scan (argument :: rest) = .word argument :: scan rest := by
  have hne : argument ≠ "--" := by
    rintro rfl
    exact absurd h (by decide)
  rw [scan, if_neg hne, ofArgument_of_isWord h]
  rfl

/-- A single argument that is no word names no file. -/
private theorem file?_of_scan_singleton {argument : String} (hword : ¬isWord argument.toList) :
    ∀ token ∈ scan [argument], token.file? = none := by
  have hargument := file?_of_ofArgument hword
  rw [scan]
  split
  · exact List.forall_mem_nil _
  · split
    · next tokens hfound =>
      rw [hfound] at hargument
      rw [scan, List.append_nil]
      exact hargument
    · next tokens option hfound =>
      rw [hfound] at hargument
      exact List.forall_mem_append.mpr ⟨hargument, List.forall_mem_singleton.mpr rfl⟩

private theorem scan_output (value : String) (rest : List String) :
    scan ("-o" :: value :: rest) =
      if isWord value.toList then .setting .output value :: scan rest else .stray "-o" :: scan (value :: rest) := by
  have hne : "-o" ≠ "--" := by decide
  have hargument : ofArgument "-o" = ([], some .output) := by decide
  rw [scan, if_neg hne, hargument]
  rfl

private theorem scan_linkUris (rest : List String) : scan ("--link-uris" :: rest) = .switch .linkUris :: scan rest := by
  have hne : "--link-uris" ≠ "--" := by decide
  have hargument : ofArgument "--link-uris" = ([.switch .linkUris], none) := by decide
  rw [scan, if_neg hne, hargument]
  rfl

end Token

namespace Arguments

private theorem files_ofTokens (tokens : List Token) : (ofTokens tokens).files = tokens.filterMap Token.file? := by
  induction tokens with
  | nil => rfl
  | cons token tokens ih => cases token <;> simp [ofTokens, Token.file?, List.filterMap_cons, ih]

private theorem mem_strays_ofTokens {tokens : List Token} {argument : String} (h : .stray argument ∈ tokens) :
    argument ∈ (ofTokens tokens).strays := by
  induction tokens with
  | nil => cases h
  | cons token tokens ih =>
    obtain rfl | hmore := List.mem_cons.mp h
    · exact List.mem_cons_self
    · cases token with
      | stray other => exact List.mem_cons_of_mem _ (ih hmore)
      | _ => exact ih hmore

end Arguments

namespace Command

/-! ### Commands -/

private theorem tokens_word {name : String} (h : Token.isWord name.toList) (rest : List String) :
    tokens (name :: rest) = .word name :: (Token.scan rest).erase (.switch .verbose) := by
  rw [tokens, Token.scan_word h, List.erase_cons_tail]
  exact Bool.false_ne_true

private theorem ofArguments?_word {name : String} (h : Token.isWord name.toList) (rest : List String) :
    ofArguments? (name :: rest) = ofName? name (.ofTokens ((Token.scan rest).erase (.switch .verbose))) := by
  rw [ofArguments?, tokens_word h]

private theorem export?_eq_some {arguments : Arguments} {command : Command} (h : export? arguments = some command) :
    arguments.files ≠ [] ∧ arguments.strays = [] := by
  unfold export? at h
  split at h
  · exact ⟨List.cons_ne_nil _ _, rfl⟩
  · cases h

theorem ofArguments?_export (output input : String) :
    ofArguments? ["export", "-o", output, input] =
      if Token.isWord output.toList ∧ Token.isWord input.toList then some (.exportInput output input) else none := by
  have hname : Token.isWord "export".toList := by decide
  rw [ofArguments?_word hname, Token.scan_output]
  by_cases houtput : Token.isWord output.toList
  · rw [if_pos houtput]
    by_cases hinput : Token.isWord input.toList
    · rw [if_pos ⟨houtput, hinput⟩, Token.scan_word hinput]
      rfl
    · rw [if_neg fun h => hinput h.2, Option.eq_none_iff_forall_ne_some]
      intro command h
      refine (export?_eq_some h).1 ?_
      rw [Arguments.files_ofTokens, List.filterMap_eq_nil_iff]
      intro token htoken
      obtain rfl | htoken := List.mem_cons.mp (List.mem_of_mem_erase htoken)
      · rfl
      · exact Token.file?_of_scan_singleton hinput token htoken
  · rw [if_neg houtput, if_neg fun h => houtput h.1, Option.eq_none_iff_forall_ne_some]
    intro command h
    have hstray : .stray "-o" ∈ (Token.stray "-o" :: Token.scan [output, input]).erase (.switch .verbose) :=
      (List.mem_erase_of_ne Token.noConfusion).mpr List.mem_cons_self
    have hstrays := Arguments.mem_strays_ofTokens hstray
    rw [(export?_eq_some h).2] at hstrays
    cases hstrays

/-- The arguments of a command that prints what it finds in the file. -/
def printing (name : String) (linkUris : Bool) (file : String) : List String :=
  name :: (if linkUris then ["--link-uris", file] else [file])

private theorem ofArguments?_printing {name file : String} (hname : Token.isWord name.toList)
    (hfile : Token.isWord file.toList) (linkUris : Bool) :
    ofArguments? (printing name linkUris file) =
      ofName? name ⟨if linkUris then [.linkUris] else [], [], [file], []⟩ := by
  rw [printing, ofArguments?_word hname]
  cases linkUris with
  | false =>
    rw [if_neg Bool.false_ne_true, Token.scan_word hfile]
    rfl
  | true =>
    rw [if_pos rfl, Token.scan_linkUris, Token.scan_word hfile]
    rfl

theorem ofArguments?_show {file : String} (hfile : Token.isWord file.toList) (linkUris : Bool) :
    ofArguments? (printing "show" linkUris file) = some (.showInput linkUris file) := by
  rw [ofArguments?_printing (by decide) hfile]
  cases linkUris <;> rfl

theorem ofArguments?_dump {file : String} (hfile : Token.isWord file.toList) (linkUris : Bool) :
    ofArguments? (printing "dump" linkUris file) = some (.dumpSet linkUris file) := by
  rw [ofArguments?_printing (by decide) hfile]
  cases linkUris <;> rfl

end Command

end CertExtensions
