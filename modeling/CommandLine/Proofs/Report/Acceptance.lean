import CommandLine.Proofs.CommandTree.Clash
import CommandLine.Proofs.Reading.Sighting
import CommandLine.Proofs.Report.Symbols

/-!
# Aliases in scope are accepted

A text that stands for an option in the scope of a command can be given under the command, and is
then matched as that option. Two things are read before options are looked at: `--`, whatever has
it as an alias, and the subcommands of the command. Validation keeps subcommands apart from the
options that their command keeps to itself, so what remains are options that are passed on: a
subcommand below their command is nearer than they are.
-/

namespace CommandLine.CommandTree

variable {β : Type} {tree : CommandTree β} {config : Config} {command option : SymbolId}
  {text : String}

/-! ## An option on its own -/

/-- The report of a command line that is one token and names an option. -/
def loneOption (tree : CommandTree β) (config : Config) (command option : SymbolId)
    (text : String) : Report β where
  setting := Setting.of tree config
  start := command
  readings := [⟨text, 0, command, .option option []⟩]

/-- A token that looks like an option and stands alone is read as that option. -/
theorem parse_eq_loneOption (hcommand : (tree.symbol? command).isSome)
    (hsight : (Setting.of tree config).sight command text = .option option none) :
    tree.parse config command [text] = .ok (tree.loneOption config command option text) := by
  obtain ⟨symbol, hsymbol⟩ := Option.isSome_iff_exists.mp hcommand
  have htears : (Cursor.start (Setting.of tree config) command).tears (Setting.of tree config)
      text = false := by
    simp [Cursor.tears, Cursor.start, hsight]
  have hstep : (Cursor.start (Setting.of tree config) command).step (Setting.of tree config) text =
      { (Cursor.start (Setting.of tree config) command).record text (.option option []) with
        taking := some ((Setting.of tree config).taking option) } := by
    simp [Cursor.step, Cursor.start, Cursor.record, hsight]
  rw [parse, Setting.parse]
  rw [show (Setting.of tree config).tree.symbol? command = some symbol from hsymbol]
  simp only [Cursor.read, htears, hstep]
  rfl

/-- The option of such a command line is matched, with the one token as its occurrence. -/
theorem exists_option?_loneOption (tree : CommandTree β) (config : Config)
    (command option : SymbolId) (text : String) :
    ∃ found, (tree.loneOption config command option text).option? option = some found ∧
      found.command = command ∧ found.tokens = [⟨text, .option, 0⟩] := by
  have hids : (tree.loneOption config command option text).optionIds = [option] := by
    simp [Report.optionIds, loneOption, Reading.option?, List.eraseDups_cons]
  refine ⟨(tree.loneOption config command option text).optionMatch option, ?_, ?_, ?_⟩
  · simp [Report.option?, Report.options, hids, Report.optionMatch]
  all_goals
    simp [Report.optionMatch, Report.occurrences, loneOption, Reading.option?, Reading.token,
      Reading.kind]

/-! ## Options in scope -/

/-- An option in scope that its command keeps to itself is an option of the command at hand. -/
theorem mem_options_of_resolve (hresolve : (tree.scope command).resolve text = some option)
    (hown : tree.isInherited option = false) :
    option ∈ tree.options command ∧ text ∈ tree.aliases option := by
  obtain ⟨hdeclared, halias⟩ :=
    (tree.scope_spec command).1 _ (Scope.mem_entries_of_resolve hresolve)
  refine ⟨?_, halias⟩
  rcases mem_declaredOptions.mp hdeclared with hmem | ⟨ancestor, -, -, hinherited⟩
  · exact hmem
  · simp [hown] at hinherited

/-- In a tree that edits make and that passes validation, a text that stands for an option at a
command is accepted there on its own: it is the one occurrence of the option, and is reported as
an option. The text must not be `--`, and if the option is one that is passed on, no subcommand of
the command may answer to it. -/
theorem exists_matched_of_resolve (h : Reachable tree) (hvalid : tree.validate = .ok ())
    (hcommand : (tree.command? command).isSome)
    (hresolve : (tree.scope command).resolve text = some option) (hdash : text ≠ "--")
    (hfree : tree.isInherited option = true → tree.subcommand? command text = none) :
    ∃ report, tree.parse config command [text] = .ok report ∧
      report.tokens = [⟨text, .option, 0⟩] ∧ report.isMatched option = true ∧
      ∃ found, report.option? option = some found ∧ found.command = command ∧
        found.tokens = [⟨text, .option, 0⟩] := by
  have hopen : tree.subcommand? command text = none := by
    cases hinherited : tree.isInherited option with
    | true => exact hfree hinherited
    | false =>
      obtain ⟨hoption, halias⟩ := mem_options_of_resolve hresolve hinherited
      exact subcommand?_eq_none_of_validate hvalid hoption hinherited halias
  have hsight : (Setting.of tree config).sight command text = .option option none :=
    Setting.sight_of_resolve hdash hopen hresolve
  obtain ⟨found, hfound, hunder, htokens⟩ :=
    tree.exists_option?_loneOption config command option text
  have hmatched : (tree.loneOption config command option text).isMatched option = true := by
    have hoption : ((tree.loneOption config command option text).tree.option? option).isSome :=
      h.wellFormed.isSome_of_resolve hresolve
    rw [Report.isMatched_iff_of_option? hoption, ← Report.isSome_option?_iff, hfound]
    rfl
  exact ⟨_, parse_eq_loneOption (isSome_symbol?_of_command? hcommand) hsight, rfl, hmatched,
    found, hfound, hunder, htokens⟩

/-- A program that passes an option on which also answers to `--` and to `run`, and whose
subcommand `task` has a subcommand `run` of its own. -/
def crowded : CommandTree Unit :=
  (new { name := "app" }).editAll
    [.addOption root { aliases := ["--retry", "--", "run"] } true,
      .addCommand root { name := "task" },
      .addCommand 3 { name := "run" }]

/-- Edits make the program out of a root command. -/
theorem reachable_crowded : Reachable crowded := (Reachable.new _).editAll _

/-- The alias that nothing is read before. -/
theorem exists_matched_crowded :
    crowded.validate = .ok () ∧ (crowded.scope 3).resolve "--retry" = some 1 ∧
      ∃ report, crowded.parse {} 3 ["--retry"] = .ok report ∧
        report.tokens = [⟨"--retry", .option, 0⟩] ∧ report.isMatched 1 = true ∧
        ∃ found, report.option? 1 = some found ∧ found.command = 3 ∧
          found.tokens = [⟨"--retry", .option, 0⟩] :=
  ⟨by rfl, by decide +kernel,
    exists_matched_of_resolve reachable_crowded (by rfl) (by decide) (by decide +kernel)
      (by decide) (by decide +kernel)⟩

/-- Both other aliases stand for the option under `task` as well, and neither is accepted as one:
`--` ends the options, and `run` is the subcommand. -/
theorem crowded_alias_not_accepted :
    Reachable crowded ∧ crowded.validate = .ok () ∧ (crowded.command? 3).isSome ∧
      ∀ text ∈ ["--", "run"], (crowded.scope 3).resolve text = some 1 ∧
        ∃ report, crowded.parse {} 3 [text] = .ok report ∧ report.option? 1 = none ∧
          ∀ token ∈ report.tokens, token.kind ≠ .option := by
  refine ⟨reachable_crowded, by rfl, by decide, ?_⟩
  intro text htext
  refine ⟨?_, _, parse_eq_report (by decide) Config.utf8Size_eq_one [text], ?_⟩
  · revert text
    decide +kernel
  · revert text
    decide +kernel

end CommandLine.CommandTree
