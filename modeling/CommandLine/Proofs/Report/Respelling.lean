import CommandLine.Proofs.Reading.Respelling
import CommandLine.Proofs.Report.Isolation
import CommandLine.Proofs.Report.Violations
import CommandLine.Report.Origin

/-!
# Synonyms

Two texts are synonyms at a command if they stand for the same option in its scope, or for the same
subcommand of it. A token of a command line can be replaced by a synonym, and the report is the same
but for the text of this token: the path, the options, all values and conversions, the errors with
their messages and places, and the actions.

This rests on two things. The token is read as before, and so is what follows. And the text of a
token that names a symbol is nowhere looked at again: what is said of symbols is said with their
display names.
-/

namespace CommandLine

variable {β : Type}

/-! ## Reports with one token spelled in another way -/

/-- The token with another text if it has the given position. -/
def Token.respell (position : ℕ) (text : String) (token : Token) : Token :=
  if token.position = position then { token with text := text } else token

/-- The matched option with another text in the token at the given position. -/
def OptionMatch.respell (position : ℕ) (text : String) (found : OptionMatch) : OptionMatch :=
  { found with tokens := found.tokens.map (Token.respell position text) }

/-- The command on a path with another text in the token that names it, if this is the token at the
given position. -/
def CommandMatch.respell (position : ℕ) (text : String) (found : CommandMatch) : CommandMatch :=
  { found with token := found.token.map (Token.respell position text) }

namespace Report

/-- The report with another text in the reading at the given position. -/
def respell (position : ℕ) (text : String) (report : Report β) : Report β :=
  { report with readings := report.readings.map (Reading.respell position text) }

/-- Two reports that are the same but for the text of the token at one position. -/
structure Respelled (first second : Report β) (position : ℕ) (text : String) : Prop where
  tokens : second.tokens = first.tokens.map (Token.respell position text)
  path : second.path = first.path.map (CommandMatch.respell position text)
  options : second.options = first.options.map (OptionMatch.respell position text)
  terminal : second.terminal = first.terminal
  /-- The bindings with their raw values and positions. -/
  bindings : second.bindings = first.bindings
  /-- What becomes of raw values, conversions included. -/
  settle : ∀ binding, second.settle binding = first.settle binding
  unmatched : second.unmatched = first.unmatched
  errors : second.errors = first.errors
  selection : second.selection = first.selection
  action? : second.action? = first.action?
  actionsAhead : second.actionsAhead = first.actionsAhead
  isMatched : ∀ id, second.isMatched id = first.isMatched id
  valueOf : ∀ id, second.valueOf id = first.valueOf id

/-- Another text by which a token names the same option or the same subcommand at the command that
is current there. -/
inductive Synonym (report : Report β) (position : ℕ) (other : String) : Prop where
  | option {text : String} {option : SymbolId} (hne : other ≠ "--")
      (htoken : report.tokens[position]? = some ⟨text, .option, position⟩)
      (hexact : (report.tree.scope (report.commandAt position)).resolve text = some option)
      (hother : (report.tree.scope (report.commandAt position)).resolve other = some option)
      (hfree : report.tree.subcommand? (report.commandAt position) other = none)
  | command {text : String} {sub : SymbolId} (hne : other ≠ "--")
      (htoken : report.tokens[position]? = some ⟨text, .command, position⟩)
      (hexact : report.tree.subcommand? (report.commandAt position) text = some sub)
      (hother : report.tree.subcommand? (report.commandAt position) other = some sub)

end Report

variable {report : Report β} {position : ℕ} {text : String}

/-- The spelling does not matter to the position of a token. -/
theorem Token.position_respell (position : ℕ) (text : String) (token : Token) :
    (token.respell position text).position = token.position := by
  rw [respell]
  split <;> rfl

/-- The spelling does not matter to where an option is given first. -/
theorem OptionMatch.position_head?_respell (position : ℕ) (text : String) (found : OptionMatch) :
    (found.respell position text).tokens.head?.map (·.position) =
      found.tokens.head?.map (·.position) := by
  rw [respell, List.head?_map, Option.map_map]
  exact Option.map_congr fun token _ => token.position_respell position text

/-- The spelling does not matter to where a command is named. -/
theorem CommandMatch.position_token_respell (position : ℕ) (text : String) (found : CommandMatch) :
    (found.respell position text).token.map (·.position) = found.token.map (·.position) := by
  rw [respell, Option.map_map]
  exact Option.map_congr fun token _ => token.position_respell position text

namespace Reading

variable {reading : Reading}

/-- The token of a reading is spelled like the reading. -/
theorem token_respell (position : ℕ) (text : String) (reading : Reading) :
    (reading.respell position text).token = reading.token.respell position text := by
  rw [respell, Token.respell, show reading.token.position = reading.position from rfl]
  split <;> rfl

/-- The spelling does not matter to what a reading means. -/
theorem meaning_respell (position : ℕ) (text : String) (reading : Reading) :
    (reading.respell position text).meaning = reading.meaning := by
  rw [respell]
  split <;> rfl

/-- The spelling does not matter to the command of a reading. -/
theorem command_respell (position : ℕ) (text : String) (reading : Reading) :
    (reading.respell position text).command = reading.command := by
  rw [respell]
  split <;> rfl

/-- The spelling does not matter to where a reading descends. -/
theorem descent?_respell (position : ℕ) (text : String) (reading : Reading) :
    (reading.respell position text).descent? = reading.descent? := by
  rw [descent?, meaning_respell, descent?]

/-- The spelling does not matter to what option a reading names. -/
theorem option?_respell (position : ℕ) (text : String) (reading : Reading) :
    (reading.respell position text).option? = reading.option? := by
  rw [option?, meaning_respell, option?]

/-- The spelling does not matter to what positional argument a reading is for. -/
theorem positional?_respell (position : ℕ) (text : String) (reading : Reading) :
    (reading.respell position text).positional? = reading.positional? := by
  rw [positional?, meaning_respell, positional?]

/-- The spelling of a name does not matter to the values that a reading gives to an option. -/
theorem optionValues_respell (hnames : reading.position = position → reading.Names)
    (option : SymbolId) :
    (reading.respell position text).optionValues option = reading.optionValues option := by
  by_cases hposition : reading.position = position
  · rw [respell_of_eq hposition]
    rcases hnames hposition with ⟨id, hmeaning⟩ | ⟨id, inline, hmeaning⟩ <;>
      simp only [optionValues, hmeaning]
  · rw [respell_of_ne hposition]

/-- The spelling of a name does not matter to the values that a reading gives to a positional
argument. -/
theorem positionalValues_respell (hnames : reading.position = position → reading.Names)
    (argument : SymbolId) :
    (reading.respell position text).positionalValues argument =
      reading.positionalValues argument := by
  by_cases hposition : reading.position = position
  · rw [respell_of_eq hposition]
    rcases hnames hposition with ⟨id, hmeaning⟩ | ⟨id, inline, hmeaning⟩ <;>
      simp only [positionalValues, hmeaning]
  · rw [respell_of_ne hposition]

/-- A token of kind command or option is a name. -/
theorem names_of_kind (h : reading.kind = .command ∨ reading.kind = .option) :
    reading.Names := by
  unfold kind at h
  unfold Names
  cases hmeaning : reading.meaning <;> simp_all

/-- A token of kind command looks like a subcommand. -/
theorem Sound.sight_of_kind_command {setting : Setting β} (h : reading.Sound setting)
    (hkind : reading.kind = .command) :
    ∃ id, setting.sight reading.command reading.text = .command id := by
  unfold kind at hkind
  unfold Sound at h
  cases hmeaning : reading.meaning <;> simp_all

/-- A token of kind option looks like an option. -/
theorem Sound.sight_of_kind_option {setting : Setting β} (h : reading.Sound setting)
    (hkind : reading.kind = .option) :
    ∃ id value, setting.sight reading.command reading.text = .option id value := by
  unfold kind at hkind
  unfold Sound at h
  cases hmeaning : reading.meaning with
  | option id inline =>
    rw [hmeaning] at h
    rcases h with ⟨hsight, -⟩ | ⟨value, hsight, -⟩
    · exact ⟨id, none, hsight⟩
    · exact ⟨id, some value, hsight⟩
  | _ => simp [hmeaning] at hkind

/-- A name is not unmatched. -/
theorem Names.ne_unmatched (h : reading.Names) : reading.meaning ≠ .unmatched := by
  rcases h with ⟨id, hmeaning⟩ | ⟨id, inline, hmeaning⟩ <;> simp [hmeaning]

end Reading

namespace Report

/-! ## Views without the texts of names -/

/-- What does not look at texts is the same for all readings. -/
theorem filterMap_respell {A : Type} {view : Reading → Option A}
    (hview : ∀ reading ∈ report.readings, view (reading.respell position text) = view reading) :
    (report.respell position text).readings.filterMap view = report.readings.filterMap view := by
  rw [respell, List.filterMap_map]
  exact List.filterMap_congr hview

/-- Readings are picked the same if texts are not looked at. -/
theorem filter_respell {p : Reading → Bool}
    (hp : ∀ reading ∈ report.readings, p (reading.respell position text) = p reading) :
    (report.respell position text).readings.filter p =
      (report.readings.filter p).map (Reading.respell position text) := by
  rw [respell, List.filter_map]
  congr 1
  exact List.filter_congr hp

/-- Values that are not in the token itself are the same. -/
theorem flatMap_respell {values : Reading → List Bound}
    (hvalues : ∀ reading ∈ report.readings,
      values (reading.respell position text) = values reading) :
    (report.respell position text).readings.flatMap values = report.readings.flatMap values := by
  rw [respell, List.flatMap_map]
  exact List.flatMap_congr hvalues

/-- The same options are matched. -/
theorem optionIds_respell (report : Report β) (position : ℕ) (text : String) :
    (report.respell position text).optionIds = report.optionIds := by
  rw [optionIds, filterMap_respell fun reading _ => reading.option?_respell position text, optionIds]

/-- The path ends at the same command. -/
theorem terminal_respell (report : Report β) (position : ℕ) (text : String) :
    (report.respell position text).terminal = report.terminal := by
  rw [terminal, filterMap_respell fun reading _ => reading.descent?_respell position text]
  rfl

/-- The tokens are the same but for the one at the position. -/
theorem tokens_respell (report : Report β) (position : ℕ) (text : String) :
    (report.respell position text).tokens = report.tokens.map (Token.respell position text) := by
  rw [tokens, tokens, respell, List.map_map, List.map_map]
  exact List.map_congr_left fun reading _ => reading.token_respell position text

/-- The occurrences of an option are the same but for their spelling. -/
theorem occurrences_respell (report : Report β) (position : ℕ) (text : String)
    (option : SymbolId) :
    (report.respell position text).occurrences option =
      (report.occurrences option).map (Reading.respell position text) := by
  rw [occurrences, occurrences, filter_respell]
  intro reading _
  rw [reading.option?_respell]

/-- The same positional arguments of a command have values. -/
theorem argumentIds_respell (report : Report β) (position : ℕ) (text : String)
    (command : SymbolId) :
    (report.respell position text).argumentIds command = report.argumentIds command := by
  rw [argumentIds, argumentIds, List.filterMap_filter, List.filterMap_filter, filterMap_respell]
  intro reading _
  rw [reading.command_respell, reading.positional?_respell]

section Names

variable (hnames : ∀ reading ∈ report.readings, reading.position = position → reading.Names)

include hnames

/-- A matched option is the same but for the token at the position. -/
theorem optionMatch_respell (text : String) (option : SymbolId) :
    (report.respell position text).optionMatch option =
      (report.optionMatch option).respell position text := by
  have hvalues : (report.respell position text).readings.flatMap (Reading.optionValues option) =
      report.readings.flatMap (Reading.optionValues option) :=
    flatMap_respell fun reading hmem => Reading.optionValues_respell (hnames reading hmem) option
  have htokens : (report.occurrences option).map
        (Reading.token ∘ Reading.respell position text) =
      (report.occurrences option).map (Token.respell position text ∘ Reading.token) :=
    List.map_congr_left fun reading _ => reading.token_respell position text
  have hcommand : ((report.occurrences option).map (Reading.respell position text)).head?.map
        (·.command) = (report.occurrences option).head?.map (·.command) := by
    rw [List.head?_map, Option.map_map]
    exact Option.map_congr fun reading _ => reading.command_respell position text
  rw [optionMatch, optionMatch, OptionMatch.respell, hvalues, occurrences_respell, hcommand,
    List.map_map, htokens, List.map_map]
  rfl

/-- The matched options are the same but for the token at the position. -/
theorem options_respell (text : String) :
    (report.respell position text).options =
      report.options.map (OptionMatch.respell position text) := by
  rw [options, options, optionIds_respell, List.map_map]
  exact List.map_congr_left fun option _ => optionMatch_respell hnames text option

/-- The bindings of a command are the same. -/
theorem arguments_respell (text : String) (command : SymbolId) :
    (report.respell position text).arguments command = report.arguments command := by
  rw [arguments, arguments, argumentIds_respell]
  apply List.map_congr_left
  intro argument _
  rw [flatMap_respell fun reading hmem =>
    Reading.positionalValues_respell (hnames reading hmem) argument]

/-- What is known of a command is the same but for the token that names it. -/
theorem commandMatch_respell (text : String) (command : SymbolId) (token : Option Token) :
    (report.respell position text).commandMatch command (token.map (Token.respell position text)) =
      (report.commandMatch command token).respell position text := by
  rw [commandMatch, commandMatch, CommandMatch.respell, options_respell hnames,
    arguments_respell hnames, List.filter_map, List.map_map]
  rfl

/-- The path is the same but for the token at the position. -/
theorem path_respell (text : String) :
    (report.respell position text).path =
      report.path.map (CommandMatch.respell position text) := by
  have hstart := commandMatch_respell hnames text report.start none
  rw [path, path, List.map_cons, ← hstart, List.map_filterMap]
  congr 1
  rw [respell, List.filterMap_map]
  apply List.filterMap_congr
  intro reading _
  rw [Function.comp_apply, reading.descent?_respell, reading.token_respell, Option.map_map]
  exact Option.map_congr fun command _ => commandMatch_respell hnames text command (some _)

/-- The positional bindings, command by command, are the same. -/
theorem positional_respell (text : String) :
    (report.respell position text).path.flatMap (·.arguments) =
      report.path.flatMap (·.arguments) := by
  rw [path_respell hnames, List.flatMap_map]
  rfl

/-- The bindings are the same. -/
theorem bindings_respell (text : String) :
    (report.respell position text).bindings = report.bindings := by
  rw [bindings, bindings, positional_respell hnames, options_respell hnames, List.map_map]
  rfl

/-- The binding of an argument is the same. -/
theorem binding?_respell (text : String) (argument : SymbolId) :
    (report.respell position text).binding? argument = report.binding? argument := by
  rw [binding?, bindings_respell hnames, binding?]

/-- The readings that match nothing are the same. -/
theorem unmatchedReadings_respell (text : String) :
    (report.respell position text).unmatchedReadings = report.unmatchedReadings := by
  rw [unmatchedReadings, unmatchedReadings, filter_respell]
  · -- The reading at the position is a name, so it is none of these.
    refine Cursor.map_respell_eq_self fun reading hmem => ?_
    obtain ⟨hmem, hmeaning⟩ := List.mem_filter.mp hmem
    intro hposition
    exact (hnames reading hmem hposition).ne_unmatched (of_decide_eq_true hmeaning)
  · intro reading _
    rw [reading.meaning_respell]

/-! ## Errors, actions and values -/

/-- The errors about tokens that match nothing are the same. -/
theorem unrecognizedErrors_respell (text : String) :
    (report.respell position text).unrecognizedErrors = report.unrecognizedErrors := by
  rw [unrecognizedErrors, unmatchedReadings_respell hnames]
  rfl

omit hnames in
/-- The same is wrong with the values of an option. -/
theorem optionBindingError?_respell (found : OptionMatch) :
    (report.respell position text).optionBindingError? (found.respell position text) =
      report.optionBindingError? found := by
  rw [optionBindingError?, optionBindingError?, found.position_head?_respell]
  rfl

omit hnames in
/-- The same is wrong with the positional arguments of a command. -/
theorem argumentErrors_respell (found : CommandMatch) :
    (report.respell position text).argumentErrors (found.respell position text) =
      report.argumentErrors found := by
  have hmissing : (report.respell position text).missingArgument? (found.respell position text) =
      report.missingArgument? found := by
    funext argument
    rw [missingArgument?, missingArgument?, found.position_token_respell]
    rfl
  rw [argumentErrors, argumentErrors, found.position_token_respell, hmissing]
  rfl

/-- The same is wrong with values. -/
theorem bindingErrors_respell (text : String) :
    (report.respell position text).bindingErrors = report.bindingErrors := by
  rw [bindingErrors, bindingErrors, options_respell hnames, path_respell hnames,
    List.filterMap_map, List.flatMap_map]
  congr 1
  · exact List.filterMap_congr fun found _ => optionBindingError?_respell found
  · exact List.flatMap_congr fun found _ => argumentErrors_respell found

omit hnames in
/-- The same values of an option are rejected. -/
theorem optionRejections_respell (found : OptionMatch) :
    (report.respell position text).optionRejections (found.respell position text) =
      report.optionRejections found := by
  rw [optionRejections, optionRejections, found.position_head?_respell]
  rfl

/-- The same values are rejected. -/
theorem validationErrors_respell (text : String) :
    (report.respell position text).validationErrors = report.validationErrors := by
  rw [validationErrors, validationErrors, options_respell hnames, positional_respell hnames,
    List.flatMap_map]
  congr 1
  exact List.flatMap_congr fun found _ => optionRejections_respell found

omit hnames in
/-- The same is missing. -/
theorem omissionErrors_respell (report : Report β) (position : ℕ) (text : String) :
    (report.respell position text).omissionErrors = report.omissionErrors := by
  have hmissing : (report.respell position text).missingOption? = report.missingOption? := by
    funext option
    rw [missingOption?, missingOption?, optionIds_respell]
    rfl
  rw [omissionErrors, omissionErrors, terminal_respell, hmissing]
  rfl

/-- The errors are the same. -/
theorem errors_respell (text : String) :
    (report.respell position text).errors = report.errors := by
  rw [errors, errors, unrecognizedErrors_respell hnames, bindingErrors_respell hnames,
    validationErrors_respell hnames, omissionErrors_respell]

omit hnames in
/-- The same symbols are selected. -/
theorem selection_respell (report : Report β) (position : ℕ) (text : String) :
    (report.respell position text).selection = report.selection := by
  rw [selection, selection, actingOptions, actingOptions, optionIds_respell, terminal_respell]
  rfl

/-- The same symbols take part. -/
theorem isMatched_respell (text : String) (id : SymbolId) :
    (report.respell position text).isMatched id = report.isMatched id := by
  have hoption : ((report.respell position text).option? id).isSome = (report.option? id).isSome := by
    rw [Bool.eq_iff_iff, isSome_option?_iff, isSome_option?_iff, optionIds_respell]
  rw [isMatched, isMatched, path_respell hnames, List.any_map, hoption, binding?_respell hnames]
  rfl

/-- The values of all symbols come from the same. -/
theorem origin_respell (text : String) (id : SymbolId) :
    (report.respell position text).origin id = report.origin id := by
  have hargument : (report.respell position text).argumentOrigin = report.argumentOrigin := by
    funext argument
    rw [argumentOrigin, argumentOrigin, binding?_respell hnames]
    rfl
  rw [origin, origin, hargument]
  rfl

/-- A report in which a name is spelled in another way is the same but for the text of its token. -/
theorem respelled (text : String) :
    report.Respelled (report.respell position text) position text where
  tokens := tokens_respell report position text
  path := path_respell hnames text
  options := options_respell hnames text
  terminal := terminal_respell report position text
  bindings := bindings_respell hnames text
  settle := fun _ => rfl
  unmatched := by
    rw [unmatched, unmatchedReadings_respell hnames, unmatched]
  errors := errors_respell hnames text
  selection := selection_respell report position text
  action? := by
    rw [Report.action?, selection_respell, Report.action?]
    rfl
  actionsAhead := by
    rw [Report.actionsAhead, selection_respell, Report.actionsAhead]
    rfl
  isMatched := isMatched_respell hnames text
  valueOf := fun id => by rw [valueOf, origin_respell hnames, valueOf]

end Names

end Report

/-! ## Replacing a token by a synonym -/

namespace CommandTree

variable {tree : CommandTree β} {config : Config} {start : SymbolId} {texts : List String}
  {reading : Reading} {other : String}

/-- Each reading of a report was made by the step that reads its token. -/
theorem exists_step_of_getElem?
    (h : (tree.report config start texts).readings[position]? = some reading) :
    ∃ before after next, texts = before ++ reading.text :: after ∧ before.length = position ∧
      reading = ⟨reading.text, position, (tree.cursorAfter config start before).command,
        reading.meaning⟩ ∧
      Cursor.Step (Setting.of tree config) (tree.cursorAfter config start before) reading.text
        reading.meaning next := by
  obtain ⟨hposition, -⟩ := List.getElem?_eq_some_iff.mp h
  rw [length_readings_report] at hposition
  have hsplit : texts = texts.take position ++ texts[position] :: texts.drop (position + 1) := by
    rw [List.getElem_cons_drop, List.take_append_drop]
  have hlength : (texts.take position).length = position := by
    rw [List.length_take]
    omega
  generalize texts.take position = before at hsplit hlength
  generalize texts[position] = text at hsplit
  generalize texts.drop (position + 1) = after at hsplit
  subst hsplit
  obtain ⟨meaning, hstep⟩ :=
    Cursor.step_cases (Setting.of tree config) (tree.cursorAfter config start before) text
  have hcount : (tree.cursorAfter config start before).readings.length = position :=
    (length_readings_report before).trans hlength
  -- What is read first stays in front, so the reading at the position is the one of this step.
  obtain ⟨rest, hrest⟩ := Cursor.readings_isPrefix_foldl_step (Setting.of tree config)
    ((tree.cursorAfter config start before).step (Setting.of tree config) text) after
  have hreadings : (tree.report config start (before ++ text :: after)).readings =
      (tree.cursorAfter config start before).readings ++
        ⟨text, position, (tree.cursorAfter config start before).command, meaning⟩ :: rest := by
    rw [readings_report_append, List.foldl_cons, ← hrest, hstep.readings, hcount,
      List.append_assoc, List.singleton_append]
  rw [hreadings, List.getElem?_append_right (by omega), hcount, Nat.sub_self,
    List.getElem?_cons_zero, Option.some.injEq] at h
  subst h
  exact ⟨before, after, _, rfl, hlength, rfl, hstep⟩

/-- A token that names a subcommand or an option, and holds no value, can be replaced by any text
that looks the same at its command. -/
theorem report_set_of_sight_eq
    (h : (tree.report config start texts).readings[position]? = some reading)
    (hnames : reading.Names)
    (hrecognized : (∃ id, (Setting.of tree config).sight reading.command reading.text =
      .command id) ∨ ∃ id, (Setting.of tree config).sight reading.command reading.text =
        .option id none)
    (hsight : (Setting.of tree config).sight reading.command other =
      (Setting.of tree config).sight reading.command reading.text) :
    tree.report config start (texts.set position other) =
      (tree.report config start texts).respell position other := by
  obtain ⟨before, after, next, rfl, hlength, hreading, hstep⟩ := exists_step_of_getElem? h
  rw [hreading] at hrecognized hsight
  have hliteral := hstep.literal_of_names hnames
  have hcount : (tree.cursorAfter config start before).readings.length = position :=
    (length_readings_report before).trans hlength
  have hother := Cursor.step_other
    (@consistent_cursorAfter β tree config start before).position_ne hliteral hsight hrecognized
  have hlater : position < ((tree.cursorAfter config start before).step (Setting.of tree config)
      reading.text).readings.length := by
    rw [Cursor.length_readings_step]
    omega
  have hset : (before ++ reading.text :: after).set position other = before ++ other :: after := by
    rw [List.set_append_right _ _ (by omega), hlength, Nat.sub_self, List.set_cons_zero]
  rw [hset, report, report, cursorAfter, cursorAfter, List.foldl_append, List.foldl_append,
    List.foldl_cons, List.foldl_cons]
  change Report.mk _ _ (after.foldl _ ((tree.cursorAfter config start before).step _ other)).readings = _
  rw [hother, hcount, Cursor.foldl_step_respell _ hlater]
  rfl

/-- The reading of a token of a report. -/
theorem exists_reading_of_token {kind : TokenKind} {place : ℕ}
    (h : (tree.report config start texts).tokens[position]? = some ⟨text, kind, place⟩) :
    ∃ reading, (tree.report config start texts).readings[position]? = some reading ∧
      reading.text = text ∧ reading.kind = kind ∧ reading.position = place := by
  rw [Report.tokens, List.getElem?_map, Option.map_eq_some_iff] at h
  obtain ⟨reading, hreading, htoken⟩ := h
  rw [Reading.token, Token.mk.injEq] at htoken
  exact ⟨reading, hreading, htoken⟩

/-- A synonym looks like the token that it may replace, and this token is a name. -/
theorem WellFormed.of_synonym (h : tree.WellFormed)
    (hsynonym : (tree.report config start texts).Synonym position other) :
    ∃ reading, (tree.report config start texts).readings[position]? = some reading ∧
      reading.position = position ∧ reading.Names ∧
      ((∃ id, (Setting.of tree config).sight reading.command reading.text = .command id) ∨
        ∃ id, (Setting.of tree config).sight reading.command reading.text = .option id none) ∧
      (Setting.of tree config).sight reading.command other =
        (Setting.of tree config).sight reading.command reading.text := by
  have hgenuine := @WellFormed.genuine β tree config start h texts
  rcases hsynonym with ⟨hne, htoken, hexact, hother, hfree⟩ | ⟨hne, htoken, hexact, hother⟩
  · obtain ⟨reading, hreading, rfl, hkind, hposition⟩ := exists_reading_of_token htoken
    have hmem := List.mem_of_getElem? hreading
    obtain ⟨id, value, hsight⟩ := (hgenuine.trace.sound hmem).sight_of_kind_option hkind
    obtain ⟨hdash, hnone⟩ := Setting.subcommand?_eq_none_of_sight hsight
    rw [← hposition, hgenuine.commandAt_eq hmem] at hexact hother hfree
    have hfirst : (Setting.of tree config).sight reading.command reading.text = .option _ none :=
      Setting.sight_of_resolve hdash hnone hexact
    have hsecond : (Setting.of tree config).sight reading.command other = .option _ none :=
      Setting.sight_of_resolve hne hfree hother
    exact ⟨reading, hreading, hposition, Reading.names_of_kind (.inr hkind), .inr ⟨_, hfirst⟩,
      hsecond.trans hfirst.symm⟩
  · obtain ⟨reading, hreading, rfl, hkind, hposition⟩ := exists_reading_of_token htoken
    have hmem := List.mem_of_getElem? hreading
    obtain ⟨id, hsight⟩ := (hgenuine.trace.sound hmem).sight_of_kind_command hkind
    rw [← hposition, hgenuine.commandAt_eq hmem] at hexact hother
    have hsub := Setting.subcommand?_of_sight hsight
    have hsecond : (Setting.of tree config).sight reading.command other = .command id :=
      Setting.sight_of_subcommand? hne (hother.trans (hexact.symm.trans hsub))
    exact ⟨reading, hreading, hposition, Reading.names_of_kind (.inl hkind), .inl ⟨id, hsight⟩,
      hsecond.trans hsight.symm⟩

/-- A command line in which one token is replaced by a synonym is parsed as before: nothing changes
but the text of this token. -/
theorem exists_respelled (h : tree.Reachable) (hstart : (tree.command? start).isSome)
    (hdelimiters : ∀ d ∈ config.inlineDelimiters, d.utf8Size = 1) (texts : List String) :
    ∃ first, tree.parse config start texts = .ok first ∧
      ∀ position other, first.Synonym position other →
        ∃ second, tree.parse config start (texts.set position other) = .ok second ∧
          first.Respelled second position other := by
  have hsymbol := isSome_symbol?_of_command? hstart
  refine ⟨_, parse_eq_report hsymbol hdelimiters texts, ?_⟩
  intro position other hsynonym
  refine ⟨_, parse_eq_report hsymbol hdelimiters _, ?_⟩
  obtain ⟨reading, hreading, hposition, hnames, hrecognized, hsight⟩ :=
    h.wellFormed.of_synonym hsynonym
  rw [report_set_of_sight_eq hreading hnames hrecognized hsight]
  apply Report.respelled
  -- No other reading has the position.
  intro found hmem hfound
  rwa [(consistent_cursorAfter texts).trace.eq_of_position_eq hmem (List.mem_of_getElem? hreading)
    (hfound.trans hposition.symm)]

/-- Either alias of an option that is declared above the current command. -/
theorem exists_respelled_sample :
    ∃ first second, sample.parse {} root ["build", "-t", "a"] = .ok first ∧
      first.Synonym 1 "--tag" ∧ sample.parse {} root ["build", "--tag", "a"] = .ok second ∧
      first.Respelled second 1 "--tag" := by
  obtain ⟨first, hfirst, hall⟩ := @exists_respelled Unit sample {} root reachable_sample
    (by decide) Config.utf8Size_eq_one ["build", "-t", "a"]
  have hreport : first = sample.report {} root ["build", "-t", "a"] :=
    Except.ok.inj (hfirst.symm.trans (parse_eq_report (by decide) Config.utf8Size_eq_one _))
  have hsynonym : first.Synonym 1 "--tag" := by
    rw [hreport]
    apply @Report.Synonym.option Unit _ 1 "--tag" "-t" 1 <;> decide +kernel
  obtain ⟨second, hsecond, hrespelled⟩ := hall 1 "--tag" hsynonym
  exact ⟨first, second, hfirst, hsynonym, hsecond, hrespelled⟩

end CommandTree

end CommandLine
