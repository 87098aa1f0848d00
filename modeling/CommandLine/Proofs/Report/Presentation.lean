import CommandLine.Proofs.CommandTree.Editing
import CommandLine.Proofs.CommandTree.Presentation
import CommandLine.Proofs.Report.Enumeration

/-!
# Presentation does not influence parsing

A report against a bare tree says what the report against the tree says: its tokens are read alike,
and the views of a report ask only what a bare tree answers in the same way. Errors are made of
names, raw values and the fact that an argument has a default, and so are the same as well. Only
suggestions are chosen among what is not hidden, and a configuration can turn them off.

So two trees with the same bare tree, and two configurations with the same delimiters, give reports
that differ in suggestions and in the values of defaults at most.
-/

namespace CommandLine

variable {β : Type}

/-- The problem without a suggestion. -/
def Problem.unsuggested : Problem → Problem
  | .unrecognized token _ => .unrecognized token none
  | problem => problem

namespace ParseError

/-- The error without a suggestion. -/
def unsuggested (error : ParseError) : ParseError :=
  { error with problem := error.problem.unsuggested }

/-- What an error says, its suggestion aside: its kind, its message, its place and its symbol. -/
def statement (error : ParseError) : ErrorKind × String × Option Nat × Option SymbolId :=
  (error.kind, error.message, error.position, error.symbol)

/-- Without a suggestion an error says the same. -/
@[simp] theorem statement_unsuggested (error : ParseError) :
    error.unsuggested.statement = error.statement := by
  obtain ⟨problem, position, symbol⟩ := error
  cases problem <;> rfl

/-- Errors that differ in their suggestions at most say the same. -/
theorem map_statement_congr {first second : List ParseError}
    (h : second.map unsuggested = first.map unsuggested) :
    second.map statement = first.map statement := by
  have hstatement : ∀ errors : List ParseError,
      (errors.map unsuggested).map statement = errors.map statement := by
    intro errors
    rw [List.map_map]
    exact List.map_congr_left fun error _ => error.statement_unsuggested
  rw [← hstatement, h, hstatement]

end ParseError

namespace Report

/-- Reports that say the same as one report say the same as each other. -/
theorem Alike.of_common {first second common : Report β} (hfirst : first.Alike common)
    (hsecond : second.Alike common) : first.Alike second where
  tokens := hsecond.tokens.symm.trans hfirst.tokens
  path := hsecond.path.symm.trans hfirst.path
  terminal := hsecond.terminal.symm.trans hfirst.terminal
  options := hsecond.options.symm.trans hfirst.options
  settle binding := (hsecond.settle binding).symm.trans (hfirst.settle binding)
  unmatched := hsecond.unmatched.symm.trans hfirst.unmatched
  isMatched id := (hsecond.isMatched id).symm.trans (hfirst.isMatched id)
  selection := hsecond.selection.symm.trans hfirst.selection
  action? := hsecond.action?.symm.trans hfirst.action?
  actionsAhead := hsecond.actionsAhead.symm.trans hfirst.actionsAhead

/-- The same readings, asked about against the bare tree. -/
def bare (report : Report β) : Report β :=
  { report with setting := Setting.of report.tree.bare report.config.bare }

variable (report : Report β)

/-- The tree of a bare report is bare. -/
@[simp] theorem tree_bare : report.bare.tree = report.tree.bare := rfl

/-! ## The views of a report -/

/-- The matched options are the same against the bare tree. -/
theorem options_bare : report.bare.options = report.options := by
  have hmatch : report.bare.optionMatch = report.optionMatch := by
    funext option
    simp only [optionMatch, slotId, tree_bare, CommandTree.option?_bare]
    rfl
  rw [options, options, hmatch]
  rfl

/-- The path is the same against the bare tree. -/
theorem path_bare : report.bare.path = report.path := by
  have hmatch : report.bare.commandMatch = report.commandMatch := by
    funext command token
    rw [commandMatch, options_bare]
    rfl
  rw [path, path, hmatch]
  rfl

/-- What becomes of raw values is the same against the bare tree. -/
theorem settle_bare (binding : Binding) : report.bare.settle binding = report.settle binding := by
  rw [settle, settle, tree_bare, CommandTree.argument?_bare]
  cases report.tree.argument? binding.argument <;> rfl

/-- The same symbols take part against the bare tree. -/
theorem isMatched_bare (id : SymbolId) : report.bare.isMatched id = report.isMatched id := by
  simp only [isMatched, option?, binding?, bindings, options_bare, path_bare, tree_bare,
    CommandTree.role?_bare]
  cases hrole : report.tree.role? id with
  | none => rfl
  | some role => cases role <;> rfl

/-- The same symbols are selected against the bare tree. -/
theorem selection_bare : report.bare.selection = report.selection := by
  simp only [selection, actingOptions, tree_bare, CommandTree.action?_bare,
    CommandTree.command?_bare]
  rfl

/-- A report says the same against the bare tree. -/
theorem alike_bare : report.Alike report.bare where
  tokens := rfl
  path := report.path_bare
  terminal := rfl
  options := report.options_bare
  settle := report.settle_bare
  unmatched := rfl
  isMatched := report.isMatched_bare
  selection := report.selection_bare
  action? := by
    rw [action?, action?, selection_bare, tree_bare]
    cases report.selection.owner <;> simp
  actionsAhead := by
    rw [actionsAhead, actionsAhead, selection_bare, tree_bare]
    exact List.filterMap_congr fun id _ => report.tree.action?_bare id

/-! ## Errors -/

/-- The same tokens are errors against the bare tree, suggestions aside. -/
theorem unrecognizedErrors_bare :
    report.bare.unrecognizedErrors.map ParseError.unsuggested =
      report.unrecognizedErrors.map ParseError.unsuggested := by
  have hreading : ∀ reading, (report.bare.unrecognized? reading).map ParseError.unsuggested =
      (report.unrecognized? reading).map ParseError.unsuggested := by
    intro reading
    simp only [unrecognized?, tree_bare, CommandTree.command?_bare]
    split <;> rfl
  simp only [unrecognizedErrors, List.map_filterMap, hreading]
  rfl

/-- The same is wrong with a binding against the bare tree. -/
theorem bindingError?_bare : report.bare.bindingError? = report.bindingError? := by
  funext owner position binding
  rw [bindingError?, bindingError?, tree_bare, CommandTree.argument?_bare]
  cases report.tree.argument? binding.argument <;> rfl

/-- The same arguments are missing against the bare tree. -/
theorem missingArgument?_bare (found : CommandMatch) :
    report.bare.missingArgument? found = report.missingArgument? found := by
  funext argument
  rw [missingArgument?, missingArgument?, tree_bare, CommandTree.argument?_bare]
  cases report.tree.argument? argument with
  | none => rfl
  | some node => simp [ArgumentNode.bare]

/-- The same is wrong with all bindings against the bare tree. -/
theorem bindingErrors_bare : report.bare.bindingErrors = report.bindingErrors := by
  have hoption : report.bare.optionBindingError? = report.optionBindingError? := by
    funext found
    rw [optionBindingError?, optionBindingError?, bindingError?_bare, tree_bare,
      CommandTree.displayName_bare]
  have hargument : report.bare.argumentErrors = report.argumentErrors := by
    funext found
    simp only [argumentErrors, bindingError?_bare, missingArgument?_bare, tree_bare,
      CommandTree.name_bare, CommandTree.arguments, CommandTree.command?_bare]
  rw [bindingErrors, bindingErrors, options_bare, path_bare, hoption, hargument]

/-- The same values are rejected against the bare tree. -/
theorem validationErrors_bare : report.bare.validationErrors = report.validationErrors := by
  have hvalidators : ∀ argument, (report.tree.bare.argument? argument).elim [] (·.validators) =
      (report.tree.argument? argument).elim [] (·.validators) := by
    intro argument
    rw [CommandTree.argument?_bare]
    cases report.tree.argument? argument <;> rfl
  have hoption : report.bare.optionRejections = report.optionRejections := by
    funext found
    simp only [optionRejections, settle_bare, tree_bare, CommandTree.option?_bare, hvalidators,
      CommandTree.displayName_bare]
  have hargument : report.bare.argumentRejections = report.argumentRejections := by
    funext binding
    simp only [argumentRejections, settle_bare, tree_bare, hvalidators, CommandTree.name_bare]
  rw [validationErrors, validationErrors, options_bare, path_bare, hoption, hargument]

/-- The same is missing at the deepest command against the bare tree. -/
theorem omissionErrors_bare (hscope : report.setting.scope = report.tree.scope) :
    report.bare.omissionErrors = report.omissionErrors := by
  have hoption : report.bare.missingOption? = report.missingOption? := by
    funext option
    have hdefault : (report.tree.bare.slot? option).any (·.default.isSome) =
        (report.tree.slot? option).any (·.default.isSome) := by
      rw [CommandTree.slot?_bare]
      cases report.tree.slot? option <;> simp [ArgumentNode.bare]
    simp only [missingOption?, tree_bare, CommandTree.isRequired_bare, hdefault,
      CommandTree.displayName_bare]
    rfl
  have hcommand : report.bare.missingCommand? = report.missingCommand? := by
    funext command
    simp only [missingCommand?, tree_bare, CommandTree.command?_bare]
  have hscopes :
      report.bare.setting.scope report.terminal = report.setting.scope report.terminal := by
    rw [hscope]
    exact report.tree.scope_bare report.terminal
  rw [omissionErrors, omissionErrors, hoption, hcommand]
  change (report.bare.setting.scope report.terminal).options.filterMap _ ++ _ = _
  rw [hscopes]
  rfl

/-- The same is wrong with the command line against the bare tree, suggestions aside. -/
theorem errors_bare (hscope : report.setting.scope = report.tree.scope) :
    report.bare.errors.map ParseError.unsuggested = report.errors.map ParseError.unsuggested := by
  simp only [errors, List.map_append, unrecognizedErrors_bare, bindingErrors_bare,
    validationErrors_bare, report.omissionErrors_bare hscope]

end Report

namespace CommandTree

variable {tree first second : CommandTree β} {config firstConfig secondConfig : Config}
  {start : SymbolId}

/-- Reading against the bare tree gives the bare report. -/
theorem report_bare (texts : List String) :
    tree.bare.report config.bare start texts = (tree.report config start texts).bare := by
  have hcursor : tree.bare.cursorAfter config.bare start texts =
      tree.cursorAfter config start texts :=
    Cursor.foldl_step_congr fun command _ => Setting.agreeAt_bare tree config command
  rw [report, hcursor]
  rfl

/-- What is only shown does not influence parsing. If two trees differ in descriptions, hidden flags
and the values of defaults at most, and two configurations in suggestions and the exit code, then
from any command, with delimiters of one byte, every command line is parsed against both, and the
reports agree in all but the suggestions of errors and the values of defaults. -/
theorem exists_alike_of_bare_eq (hbare : second.bare = first.bare)
    (hconfig : secondConfig.inlineDelimiters = firstConfig.inlineDelimiters)
    (hstart : (first.command? start).isSome)
    (hdelimiters : ∀ d ∈ firstConfig.inlineDelimiters, d.utf8Size = 1) (texts : List String) :
    ∃ before after, first.parse firstConfig start texts = .ok before ∧
      second.parse secondConfig start texts = .ok after ∧ before.Alike after ∧
      after.errors.map ParseError.unsuggested = before.errors.map ParseError.unsuggested ∧
      after.errors.map ParseError.statement = before.errors.map ParseError.statement := by
  have hsecond : (second.command? start).isSome := by
    rw [← command?_bare, hbare, command?_bare]
    exact hstart
  have hcommon : (second.report secondConfig start texts).bare =
      (first.report firstConfig start texts).bare := by
    rw [← report_bare, ← report_bare, hbare, Config.bare, hconfig]
    rfl
  have hfirst := (first.report firstConfig start texts).alike_bare
  have halike := (second.report secondConfig start texts).alike_bare
  rw [hcommon] at halike
  have herrors := (second.report secondConfig start texts).errors_bare rfl
  rw [hcommon, Report.errors_bare _ rfl] at herrors
  refine ⟨_, _, parse_eq_report (isSome_symbol?_of_command? hstart) hdelimiters texts,
    parse_eq_report (isSome_symbol?_of_command? hsecond) (hconfig ▸ hdelimiters) texts,
    hfirst.of_common halike, herrors.symm, ParseError.map_statement_congr herrors.symm⟩

/-- A program with a required option that has a default, `app --level <level>`, and a subcommand
`app status`. -/
def plain : CommandTree Unit :=
  (new { name := "app" }).editAll
    [.addOption root
        { aliases := ["--level", "-l"]
          argument := some { name := "level", type := .int, default := some fun _ => .int 3 }
          required := true }
        true,
      .addCommand root { name := "status" }]

/-- The same program with descriptions, a hidden subcommand, and a default that changes. -/
def dressed : CommandTree Unit :=
  (new { name := "app", description := some "Shows a level." }).editAll
    [.addOption root
        { aliases := ["--level", "-l"]
          description := some "The level."
          argument := some
            { name := "level", type := .int, default := some fun n => .int (.ofNat n) }
          required := true }
        true,
      .addCommand root { name := "status" },
      .setHidden 3 true]

/-- A command line with errors of two kinds, one of them with a suggestion in the first report. -/
theorem exists_alike_dressed : ∃ before after,
    plain.parse {} root ["statsu", "--level", "x"] = .ok before ∧
      dressed.parse { suggestions := false, errorExitCode := 3 } root ["statsu", "--level", "x"] =
        .ok after ∧
      before.Alike after ∧
      after.errors.map ParseError.unsuggested = before.errors.map ParseError.unsuggested ∧
      after.errors.map ParseError.statement = before.errors.map ParseError.statement :=
  @exists_alike_of_bare_eq Unit plain dressed {} { suggestions := false, errorExitCode := 3 } root
    rfl rfl (by decide) Config.utf8Size_eq_one _

end CommandTree

end CommandLine
