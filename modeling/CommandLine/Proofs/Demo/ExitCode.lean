import CommandLine.Proofs.Demo.Program

/-!
# The exit code of the demonstration

The program ends with the exit code 0 or 1, whatever its arguments are. Help and version run in
spite of errors and always end well, and when one of them is given nothing else runs. Otherwise
errors in the arguments are reported with the exit code 1. If there are none the deepest command
runs, and of its commands only the one that parses a line can end with 1: it does so if the line has
errors for the sample program.
-/

namespace CommandLine.Demo

open CommandTree

/-- Whether the help option or the version option was given. -/
def Informs (report : Report Body) : Prop :=
  ∃ found ∈ report.options, "--help" ∈ report.tree.aliases found.option ∨
    "--version" ∈ report.tree.aliases found.option

/-- Whether the arguments ask to parse a line that has errors for the sample program. -/
def FindsErrors (report : Report Body) : Prop :=
  report.tree.name report.terminal = "parse" ∧
    ∃ line ∈ report.tree.arguments report.terminal, ∃ tree parsed, sampleApp id = .ok tree ∧
      tree.parse {} root (Line.split (gatherLine report line)) = .ok parsed ∧ parsed.errors ≠ []

/-! ## What acts -/

/-- Whether an action is help or a version. -/
def Body.isStandard : Body → Bool
  | .standard _ => true
  | .task _ => false

/-- An option of the program acts if it has an alias of help or of the version. -/
theorem acts_iff_of_option {option : SymbolId} (hoption : (program.option? option).isSome) :
    (program.action? option).isSome ↔
      "--help" ∈ program.aliases option ∨ "--version" ∈ program.aliases option := by
  have hall : ∀ id < program.size, (program.option? id).isSome → ((program.action? id).isSome ↔
      "--help" ∈ program.aliases id ∨ "--version" ∈ program.aliases id) := by decide
  exact hall option (lt_size_of_isSome_bind hoption) hoption

/-- The options that act run in spite of errors, and they are help or a version. -/
theorem action_of_option {option : SymbolId} (hoption : (program.option? option).isSome)
    {action : Action Body} (haction : program.action? option = some action) :
    action.handlesErrors = true ∧ action.body.isStandard = true := by
  have hall : ∀ id < program.size, (program.option? id).isSome →
      (program.action? id).all (fun action => action.handlesErrors && action.body.isStandard) =
        true := by decide
  simpa [haction] using hall option (lt_size_of_isSome_bind hoption) hoption

/-- The commands of the program. -/
theorem command_cases {command : SymbolId} (hcommand : (program.command? command).isSome) :
    command = root ∨ command = 9 ∨ command = 11 := by
  have hall : ∀ id < program.size, (program.command? id).isSome → id = root ∨ id = 9 ∨ id = 11 := by
    decide
  exact hall command (lt_size_of_isSome_bind hcommand) hcommand

/-! ## How actions end -/

/-- Help and version end well. -/
theorem perform_standard {body : Body} (h : body.isStandard = true) (report : Report Body)
    (cancelled : Bool) (before : Console) :
    ((body.perform report cancelled).run before).1 = .exit 0 := by
  cases body with
  | standard action => cases action <;> rfl
  | task task => cases h

/-- Parsing a line ends with 1 if the line has errors for the sample program. -/
theorem perform_parse (line : String) (asJson : Bool) (before : Console) :
    ((performParse line asJson).run before).1 =
      .exit (if (sampleTree.report {} root (Line.split line)).errors.isEmpty then 0 else 1) := by
  have hparse := @parse_eq_report StandardAction sampleTree {} root rfl Config.utf8Size_eq_one
    (Line.split line)
  rw [performParse, sampleApp_eq]
  simp only [hparse]
  rfl

/-! ## The exit code of a report -/

variable {report : Report Body}

/-- Help or the version was given if some option acts. -/
theorem informs_iff (h : report.Genuine) (htree : report.tree = program) :
    Informs report ↔ report.actingOptions ≠ [] := by
  have hoption : ∀ option ∈ report.optionIds, (program.option? option).isSome := by
    intro option hmem
    rw [← htree]
    exact Option.isSome_iff_exists.mpr (h.exists_option? hmem)
  rw [Informs, htree]
  constructor
  · rintro ⟨found, hfound, haliases⟩
    obtain ⟨option, hmem, rfl⟩ := List.mem_map.mp hfound
    have hacts := (acts_iff_of_option (hoption option hmem)).mpr haliases
    rw [← htree] at hacts
    exact List.ne_nil_of_mem (Report.mem_actingOptions.mpr ⟨hmem, hacts⟩)
  · intro hacting
    obtain ⟨option, hoptions⟩ := List.exists_mem_of_ne_nil _ hacting
    obtain ⟨hmem, hacts⟩ := Report.mem_actingOptions.mp hoptions
    rw [htree] at hacts
    exact ⟨_, List.mem_map_of_mem hmem, (acts_iff_of_option (hoption option hmem)).mp hacts⟩

/-- If help or the version was given, the program ends well. -/
theorem code_of_informs (h : report.Genuine) (htree : report.tree = program)
    (hinforms : Informs report) : (ran report).code = 0 := by
  have hacting := (informs_iff h htree).mp hinforms
  obtain ⟨option, hlast⟩ := Option.isSome_iff_exists.mp (List.getLast?_isSome.mpr hacting)
  obtain ⟨hmem, hacts⟩ := Report.mem_actingOptions.mp (List.mem_of_getLast? hlast)
  have hoption := Option.isSome_iff_exists.mpr (h.exists_option? hmem)
  obtain ⟨action, haction⟩ := Option.isSome_iff_exists.mp hacts
  have hselected : report.action? = some action := by
    rw [Report.action?, Report.selection, hlast]
    exact haction
  rw [htree] at hoption haction
  obtain ⟨hhandles, hstandard⟩ := action_of_option hoption haction
  have haccepted : report.isRefused = false := by simp [Report.isRefused, hselected, hhandles]
  rw [ran, Report.run_invoke_of_alone haccepted hselected (actionsAhead_eq_nil htree)]
  dsimp only
  rw [perform_standard hstandard]
  rfl

/-- If neither was given, the action of the deepest command is selected. -/
theorem action?_of_not_informs (h : report.Genuine) (htree : report.tree = program)
    (hinforms : ¬ Informs report) (hacts : (program.command? report.terminal).any (·.action.isSome)) :
    report.action? = program.action? report.terminal := by
  have hacting : report.actingOptions = [] := by
    rwa [informs_iff h htree, not_not] at hinforms
  rw [Report.action?, Report.selection, hacting, htree]
  simp only [List.getLast?_nil]
  rw [if_pos hacts]
  rfl

/-- Only the command that parses a line finds errors, and it finds those that the line has for the
sample program. -/
theorem findsErrors_iff (htree : report.tree = program) (line : SymbolId)
    (hline : program.arguments report.terminal = [line]) :
    FindsErrors report ↔ program.name report.terminal = "parse" ∧
      (sampleTree.report {} root (Line.split (gatherLine report line))).errors ≠ [] := by
  have hparse := @parse_eq_report StandardAction sampleTree {} root rfl Config.utf8Size_eq_one
    (Line.split (gatherLine report line))
  rw [FindsErrors, htree, hline]
  refine and_congr_right' ⟨?_, fun herrors => ?_⟩
  · rintro ⟨other, hother, tree, parsed, hsample, hparsed, herrors⟩
    obtain rfl := List.mem_singleton.mp hother
    obtain rfl := Except.ok.inj (sampleApp_eq.symm.trans hsample)
    obtain rfl := Except.ok.inj (hparse.symm.trans hparsed)
    exact herrors
  · exact ⟨line, List.mem_singleton_self line, sampleTree, _, sampleApp_eq, hparse, herrors⟩

/-- Without errors the deepest command runs alone, and its outcome is that of the program. -/
theorem code_of_selected (htree : report.tree = program) (herrors : report.errors = [])
    {task : Task} (hselected : report.action? = some { body := .task task }) :
    (ran report).code = ((task.perform report).run {}).1.code := by
  have haccepted : report.isRefused = false := by simp [Report.isRefused, herrors]
  rw [ran, Report.run_invoke_of_alone haccepted hselected (actionsAhead_eq_nil htree)]
  rfl

/-- Errors are reported unless help or the version was given. -/
theorem code_of_errors (hconfig : report.config = {}) (herrors : report.errors ≠ []) {task : Task}
    (hselected : report.action? = some { body := .task task }) : (ran report).code = 1 := by
  have hrefused : report.isRefused = true := by simp [Report.isRefused, herrors, hselected]
  rw [ran, Report.run_invoke_of_isRefused hrefused, hconfig]

/-- Without help and version the program ends with 1 if there are errors, or if the deepest command
finds some in its line, and otherwise with 0. -/
theorem code_of_not_informs (h : report.Genuine) (htree : report.tree = program)
    (hconfig : report.config = {}) (hstart : report.start = root) (hinforms : ¬ Informs report) :
    ((ran report).code = 0 ∨ (ran report).code = 1) ∧
      ((ran report).code = 1 ↔ report.errors ≠ [] ∨ FindsErrors report) := by
  have hcommand : (program.command? report.terminal).isSome := by
    rw [← htree]
    refine h.isSome_command?_of_mem_path ?_ report.terminal_mem_path
    rw [htree, hstart]
    rfl
  have hcases := command_cases hcommand
  have hacts : (program.command? report.terminal).any (·.action.isSome) = true := by
    rcases hcases with hterminal | hterminal | hterminal <;> rw [hterminal] <;> rfl
  have hselected := action?_of_not_informs h htree hinforms hacts
  by_cases herrors : report.errors = []
  · rw [or_iff_right (not_not.mpr herrors)]
    have hcalm (hfinds : ¬ FindsErrors report) (hcode : (ran report).code = 0) :
        ((ran report).code = 0 ∨ (ran report).code = 1) ∧
          ((ran report).code = 1 ↔ FindsErrors report) :=
      ⟨.inl hcode, iff_of_false (by rw [hcode]; decide) hfinds⟩
    have hname : FindsErrors report → program.name report.terminal = "parse" := by
      rw [← htree]
      exact And.left
    rcases hcases with hterminal | hterminal | hterminal <;> rw [hterminal] at hselected hname
    · exact hcalm (fun hfinds => absurd (hname hfinds) (by decide))
        (code_of_selected htree herrors hselected)
    · exact hcalm (fun hfinds => absurd (hname hfinds) (by decide))
        (code_of_selected htree herrors hselected)
    · have hcode : (ran report).code = _ := code_of_selected htree herrors hselected
      change _ = ((performParse (gatherLine report 12) _).run _).1.code at hcode
      rw [perform_parse] at hcode
      have hfinds := findsErrors_iff htree 12 (by rw [hterminal]; rfl)
      rw [hterminal] at hfinds
      rw [hfinds, hcode]
      cases (sampleTree.report {} root (Line.split (gatherLine report 12))).errors with
      | nil => exact ⟨.inl rfl, iff_of_false (by decide) fun hsome => hsome.2 rfl⟩
      | cons error rest => exact ⟨.inr rfl, iff_of_true rfl ⟨by decide, by simp⟩⟩
  · have hcode : (ran report).code = 1 := by
      rcases hcases with hterminal | hterminal | hterminal <;> rw [hterminal] at hselected <;>
        exact code_of_errors hconfig herrors hselected
    exact ⟨.inr hcode, iff_of_true hcode (.inl herrors)⟩

/-- Whatever its arguments are, the program ends with the exit code 0 or 1. It ends with 1 if neither
help nor the version was asked for, and either the arguments have errors or the line to parse has
errors for the sample program. -/
theorem exists_run (arguments : List String) :
    ∃ tree report outcome, commandTree id = .ok tree ∧ tree.parse {} root arguments = .ok report ∧
      run arguments = .ok outcome ∧ (outcome.code = 0 ∨ outcome.code = 1) ∧
      (outcome.code = 1 ↔ ¬ Informs report ∧ (report.errors ≠ [] ∨ FindsErrors report)) := by
  have hgenuine := @WellFormed.genuine Body program {} root reachable_program.wellFormed arguments
  refine ⟨program, _, _, commandTree_eq,
    parse_eq_report rfl Config.utf8Size_eq_one arguments, run_eq arguments, ?_⟩
  by_cases hinforms : Informs (program.report {} root arguments)
  · have hcode := code_of_informs hgenuine rfl hinforms
    refine ⟨.inl hcode, ?_⟩
    rw [hcode]
    exact iff_of_false (by decide) fun hboth => hboth.1 hinforms
  · obtain ⟨hcases, hone⟩ := code_of_not_informs hgenuine rfl rfl rfl hinforms
    exact ⟨hcases, hone.trans (and_iff_right hinforms).symm⟩

end CommandLine.Demo
