import CommandLine.Proofs.Report.Continuation
import CommandLine.Proofs.Report.Respelling
import CommandLine.Proofs.Scope.NearestFirst
import CommandLine.Proofs.Suggestion.Nearest

/-!
# Suggestions can be used

What is suggested in place of a token is one of the candidates of the command that is current there:
an alias of a subcommand that is not hidden, or one that stands for an option that is not hidden. A
candidate is recognized as such when it stands in the place of the token, whatever the option that
takes values or the slots that are left, since recognized forms go before these.

This asks for more than the candidates do. A candidate may be `--`, which is recognized before all
else, and candidates are looked for after `--` as well, where nothing is recognized any more.
-/

namespace CommandLine

variable {β : Type}

/-- A text that a command offers: an alias of a subcommand of it, or one that stands for an option,
neither of them hidden. -/
def CommandTree.Offers (tree : CommandTree β) (command : SymbolId) (text : String) : Prop :=
  (∃ sub ∈ tree.commands command, tree.isHidden sub = false ∧ text ∈ tree.aliases sub) ∨
    ∃ option, (tree.scope command).resolve text = some option ∧ tree.isHidden option = false

/-! ## Candidates -/

namespace CommandTree

variable {tree : CommandTree β} {config : Config} {start command : SymbolId} {text : String}

/-- The candidates at a command are the texts that it offers. -/
theorem mem_candidates_iff :
    text ∈ tree.candidates (tree.scope command) command ↔ tree.Offers command text := by
  rw [candidates, List.mem_append, List.mem_flatMap, List.mem_map, Offers]
  refine or_congr ?_ ?_
  · simp only [List.mem_filter, Bool.not_eq_true', and_assoc]
  · constructor
    · rintro ⟨⟨key, option⟩, hentry, rfl⟩
      obtain ⟨hmem, hvisible⟩ := List.mem_filter.mp hentry
      exact ⟨option, (tree.keyed_scope command).mem_iff.mp hmem, by simpa using hvisible⟩
    · rintro ⟨option, hresolve, hvisible⟩
      refine ⟨(text, option), List.mem_filter.mpr ⟨?_, by simpa using hvisible⟩, rfl⟩
      exact (tree.keyed_scope command).mem_iff.mpr hresolve

/-- What a command offers looks like a subcommand or an option there, unless it is `--`. -/
theorem Offers.sight (h : tree.Offers command text) (hdash : text ≠ "--") :
    (∃ id, (Setting.of tree config).sight command text = .command id) ∨
      ∃ id, (Setting.of tree config).sight command text = .option id none := by
  cases hsub : tree.subcommand? command text with
  | some id => exact Or.inl ⟨id, Setting.sight_of_subcommand? hdash hsub⟩
  | none =>
    rcases h with ⟨sub, hmem, -, halias⟩ | ⟨option, hresolve, -⟩
    · rw [subcommand?, List.find?_eq_none] at hsub
      rw [← decide_eq_true_iff (p := text ∈ tree.aliases sub), ← hasAlias_eq] at halias
      exact absurd halias (hsub sub hmem)
    · exact Or.inr ⟨option, Setting.sight_of_resolve hdash hsub hresolve⟩

end CommandTree

/-- A token that looks like a subcommand or an option is read as one, unless it is literal. -/
theorem Cursor.Step.names_of_sight {setting : Setting β} {cursor next : Cursor} {token : String}
    {meaning : Meaning} (h : Cursor.Step setting cursor token meaning next)
    (hliteral : cursor.literal = false)
    (hsight : (∃ id, setting.sight cursor.command token = .command id) ∨
      ∃ id, setting.sight cursor.command token = .option id none) :
    (∃ id, meaning = .command id) ∨ ∃ id, meaning = .option id [] := by
  have hrecognized : ¬ cursor.PassesBy setting token := by
    rintro (hliteral' | hplain | htorn)
    · simp [hliteral] at hliteral'
    · simp [hplain] at hsight
    · simp [htorn] at hsight
  cases h with
  | doubleDash _ hdash => simp [hdash] at hsight
  | command => exact Or.inl ⟨_, rfl⟩
  | option => exact Or.inr ⟨_, rfl⟩
  | inline _ hinline => simp [hinline] at hsight
  | optionValue _ hplain => exact absurd hplain hrecognized
  | positional hplain => exact absurd hplain hrecognized
  | unmatched hplain => exact absurd hplain hrecognized

/-! ## Suggestions in a report -/

namespace Report

variable {report : Report β} {error : ParseError} {text : String}

/-- A suggestion comes with a token that matched nothing, and is one of the candidates there. -/
theorem exists_reading_of_suggestion (h : error ∈ report.errors)
    (hsuggestion : error.suggestion? = some text) :
    error.kind = .unrecognizedToken ∧ ∃ reading ∈ report.readings,
      reading.meaning = .unmatched ∧ error.position = some reading.position ∧
      text ∈ report.tree.candidates (report.setting.scope reading.command) reading.command := by
  have hkind : error.kind = .unrecognizedToken := by
    obtain ⟨problem, position, symbol⟩ := error
    cases problem with
    | unrecognized => rfl
    | _ => cases hsuggestion
  have hmem : error ∈ report.unrecognizedErrors := by
    simp only [errors, List.mem_append] at h
    rcases h with ((h | h) | h) | h
    · exact h
    · rcases kind_of_mem_bindingErrors h with hother | hother <;> simp [hother] at hkind
    · simp [kind_of_mem_validationErrors h] at hkind
    · rcases kind_of_mem_omissionErrors h with hother | hother <;> simp [hother] at hkind
  obtain ⟨reading, hreading, herror⟩ := List.mem_filterMap.mp hmem
  obtain ⟨hfound, hmeaning⟩ := List.mem_filter.mp hreading
  refine ⟨hkind, reading, hfound, by simpa using hmeaning, ?_⟩
  unfold unrecognized? at herror
  split at herror
  · obtain rfl := Option.some.inj herror
    refine ⟨rfl, ?_⟩
    change (if report.config.suggestions then _ else none) = some text at hsuggestion
    split at hsuggestion
    · exact (Suggestion.nearest_eq_some_iff.mp hsuggestion).mem
    · cases hsuggestion
  · cases herror

end Report

namespace CommandTree

variable {tree : CommandTree β} {config : Config} {start : SymbolId} {text : String}
  {texts : List String} {reading : Reading}

/-- A text that is offered where a token stands is recognized in its place: the tokens before it are
read as they were, so the same command is current. -/
theorem exists_token_set (hreading : (tree.report config start texts).readings[position]? =
      some reading) (hoffers : tree.Offers reading.command text)
    (hbefore : "--" ∉ texts.take position) (hdash : text ≠ "--") :
    ∃ kind, (kind = .command ∨ kind = .option) ∧
      (tree.report config start (texts.set position text)).tokens[position]? =
        some ⟨text, kind, position⟩ := by
  obtain ⟨before, after, -, htexts, hlength, hfirst, -⟩ := exists_step_of_getElem? hreading
  have hset : texts.set position text = before ++ text :: after := by
    rw [htexts, List.set_append_right _ _ (by omega), hlength, Nat.sub_self, List.set_cons_zero]
  have hlt : position < (tree.report config start (texts.set position text)).readings.length := by
    rw [length_readings_report, hset, List.length_append, List.length_cons]
    omega
  have hagain := List.getElem?_eq_getElem hlt
  obtain ⟨front, rest, next, hsplit, hfront, hnew, hstep⟩ := exists_step_of_getElem? hagain
  -- The step that reads the text starts where the step that read the token did.
  obtain ⟨rfl, htail⟩ := List.append_inj (hset.symm.trans hsplit) (hlength.trans hfront.symm)
  obtain ⟨htext, -⟩ := List.cons.inj htail
  have hcommand : reading.command = (tree.cursorAfter config start before).command := by
    rw [hfirst]
  rw [htexts, ← hlength, List.take_left] at hbefore
  have hliteral := Cursor.literal_foldl_step (Setting.of tree config)
    (show (Cursor.start (Setting.of tree config) start).literal = false from rfl) hbefore
  rw [hcommand] at hoffers
  rw [← htext] at hstep
  have hmeaning := hstep.names_of_sight hliteral (hoffers.sight hdash)
  rw [Report.tokens, List.getElem?_map, hagain, Option.map_some, hnew, ← htext]
  rcases hmeaning with ⟨id, hid⟩ | ⟨id, hid⟩
  · exact ⟨.command, Or.inl rfl, by simp [Reading.token, Reading.kind, hid]⟩
  · exact ⟨.option, Or.inr rfl, by simp [Reading.token, Reading.kind, hid]⟩

/-- Suggestions can be used. From any command of a reachable tree, with delimiters of one byte,
every command line is parsed, and an error with a suggestion is about a token that matches nothing.
The suggestion is offered by the command that is current there. If the token does not stand after
`--` and the suggestion is not `--`, then the command line with the suggestion in the place of the
token is parsed with a command or an option there. -/
theorem exists_named_of_suggestion (h : Reachable tree) (hstart : (tree.command? start).isSome)
    (hdelimiters : ∀ d ∈ config.inlineDelimiters, d.utf8Size = 1) (texts : List String) :
    ∃ report, tree.parse config start texts = .ok report ∧
      ∀ error ∈ report.errors, ∀ text, error.suggestion? = some text →
        ∃ position token, error.kind = .unrecognizedToken ∧ error.position = some position ∧
          report.tokens[position]? = some ⟨token, .unparsed, position⟩ ∧
          tree.Offers (report.commandAt position) text ∧
          ("--" ∉ texts.take position → text ≠ "--" →
            ∃ again, tree.parse config start (texts.set position text) = .ok again ∧
              ∃ kind, (kind = .command ∨ kind = .option) ∧
                again.tokens[position]? = some ⟨text, kind, position⟩) := by
  have hsymbol := isSome_symbol?_of_command? hstart
  refine ⟨_, parse_eq_report hsymbol hdelimiters texts, ?_⟩
  intro error herror text hsuggestion
  obtain ⟨hkind, reading, hmem, hmeaning, hposition, hcandidate⟩ :=
    Report.exists_reading_of_suggestion herror hsuggestion
  have hoffers : tree.Offers reading.command text := mem_candidates_iff.mp hcandidate
  obtain ⟨index, hindex⟩ := List.mem_iff_getElem?.mp hmem
  obtain ⟨_, _, _, _, _, hreading, _⟩ := exists_step_of_getElem? hindex
  have hplace : reading.position = index := by rw [hreading]
  refine ⟨index, reading.text, hkind, hplace ▸ hposition, ?_, ?_, fun hbefore hdash => ?_⟩
  · rw [Report.tokens, List.getElem?_map, hindex, Option.map_some, ← hplace]
    simp [Reading.token, Reading.kind, hmeaning]
  · rw [← hplace, (h.wellFormed.genuine texts).commandAt_eq hmem]
    exact hoffers
  · exact ⟨_, parse_eq_report hsymbol hdelimiters _, exists_token_set hindex hoffers hbefore hdash⟩

/-- A program with an option that also answers to `--`, and a subcommand. -/
def dashed : CommandTree Unit :=
  (new { name := "app" }).editAll
    [.addOption root { aliases := ["--verbose", "--"] } true,
      .addCommand root { name := "status" }]

/-- Edits make the program out of a root command. -/
theorem reachable_dashed : Reachable dashed := (Reachable.new _).editAll _

/-- A token below a subcommand that is nearly an alias of an inherited option. -/
theorem exists_named_dashed :
    ∃ report, dashed.parse {} root ["statsu", "status", "--verbos", "--", "x"] = .ok report ∧
      ∃ error ∈ report.errors, error.suggestion? = some "--verbose" ∧
        error.kind = .unrecognizedToken ∧ error.position = some 2 ∧
        dashed.Offers (report.commandAt 2) "--verbose" ∧
        ∃ again, dashed.parse {} root ["statsu", "status", "--verbose", "--", "x"] = .ok again ∧
          ∃ kind, (kind = .command ∨ kind = .option) ∧
            again.tokens[2]? = some ⟨"--verbose", kind, 2⟩ := by
  obtain ⟨report, hparse, hall⟩ := @exists_named_of_suggestion Unit dashed {} root reachable_dashed
    (by decide) Config.utf8Size_eq_one ["statsu", "status", "--verbos", "--", "x"]
  have hreport : report = dashed.report {} root ["statsu", "status", "--verbos", "--", "x"] :=
    Except.ok.inj (hparse.symm.trans (parse_eq_report (by decide) Config.utf8Size_eq_one _))
  have herror : ∃ error ∈ report.errors,
      error.suggestion? = some "--verbose" ∧ error.position = some 2 := by
    rw [hreport]
    decide +kernel
  obtain ⟨error, hmem, hsuggestion, htwo⟩ := herror
  obtain ⟨position, token, hkind, hposition, -, hoffers, hnamed⟩ :=
    hall error hmem "--verbose" hsuggestion
  obtain rfl : position = 2 := Option.some.inj (hposition.symm.trans htwo)
  exact ⟨report, hparse, error, hmem, hsuggestion, hkind, hposition, hoffers,
    hnamed (by decide) (by decide)⟩

/-- Two suggestions that are not recognized as names in the place of their tokens: a subcommand
after `--`, where nothing is, and `--` itself. -/
theorem dashed_suggestion_not_named :
    Reachable dashed ∧ (dashed.command? root).isSome ∧
      (∀ d ∈ ({} : Config).inlineDelimiters, d.utf8Size = 1) ∧
      ∀ texts position text kind,
        (texts, position, text, kind) ∈
          [(["--", "statu"], 1, "status", TokenKind.unparsed), (["-v"], 0, "--", .doubleDash)] →
        ∃ report again, dashed.parse {} root texts = .ok report ∧
          (∃ error ∈ report.errors, error.kind = .unrecognizedToken ∧
            error.position = some position ∧ error.suggestion? = some text) ∧
          dashed.parse {} root (texts.set position text) = .ok again ∧
          again.tokens[position]? = some ⟨text, kind, position⟩ := by
  refine ⟨reachable_dashed, by decide, Config.utf8Size_eq_one, fun texts position text kind h => ?_⟩
  refine ⟨_, _, parse_eq_report (by decide) Config.utf8Size_eq_one texts, ?_,
    parse_eq_report (by decide) Config.utf8Size_eq_one _, ?_⟩
  · rcases List.mem_pair.mp h with h | h <;> cases h <;> decide +kernel
  · rcases List.mem_pair.mp h with h | h <;> cases h <;> decide +kernel

end CommandTree

end CommandLine
