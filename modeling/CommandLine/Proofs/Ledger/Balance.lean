import CommandLine.Proofs.Ledger.Loop
import CommandLine.Report.Origin
import CommandLine.Report.Selection

/-!
# The balance of a ledger

When all tokens are read, the ledger is closed: its errors are completed, an action is selected, and
what is left is its balance. Closing a ledger looks up the names of options, commands and arguments
by their numbers; a balance is asked for its last command.

From every symbol of a tree that was made by edits, with delimiters of one byte, any texts are read
and the ledger is closed without mishap. What the balance says, and answers to any number whether a
symbol has it or not, is what the report says. Validators, readers of custom types and suppliers of
defaults are functions here, and so have a result whatever they are asked.
-/

namespace CommandLine

variable {β : Type}

/-- A report without readings. What is asked of it depends on the tree alone. -/
def Setting.blank (setting : Setting β) : Report β := ⟨setting, CommandTree.root, []⟩

/-- What is left of a ledger that was closed. -/
structure Balance (β : Type) where
  tree : CommandTree β
  commands : List CommandMatch
  options : List OptionMatch
  tokens : List Token
  unmatched : List Token
  errors : List ParseError
  selection : Selection

namespace Ledger

/-- The errors about numbers of values and conversions, with the names of options and commands. -/
def bindingErrors (setting : Setting β) (ledger : Ledger) : Except Mishap (List ParseError) := do
  let ofOptions ← ledger.options.mapM fun found => do
    setting.tree.demand found.option
    return (setting.blank.optionBindingError? found).toList
  let ofCommands ← ledger.commands.mapM fun found => do
    setting.tree.demand found.command
    return setting.blank.argumentErrors found
  return ofOptions.flatten ++ ofCommands.flatten

/-- The errors about values that validators reject, with the names of options and arguments. -/
def validationErrors (setting : Setting β) (ledger : Ledger) :
    Except Mishap (List ParseError) := do
  let ofOptions ← ledger.options.mapM fun found => do
    if (setting.blank.settle found.binding).value?.isSome then setting.tree.demand found.option
    return setting.blank.optionRejections found
  let ofArguments ← (ledger.commands.flatMap (·.arguments)).mapM fun binding => do
    if (setting.blank.settle binding).value?.isSome then setting.tree.demand binding.argument
    return setting.blank.argumentRejections binding
  return ofOptions.flatten ++ ofArguments.flatten

/-- The error about an option that is required, has no place and no default. -/
def missingOption (setting : Setting β) (ledger : Ledger) (option : SymbolId) :
    Except Mishap (List ParseError) := do
  if setting.tree.isRequired option ∧ (ledger.places.lookup option).isNone
      ∧ !(setting.tree.slot? option).any (·.default.isSome) then
    setting.tree.demand option
    return [⟨.missingOption (setting.tree.displayName option), none, some option⟩]
  else return []

/-- The errors about what was not given at the last command; its scope is put together again. -/
def omissionErrors (setting : Setting β) (ledger : Ledger) : Except Mishap (List ParseError) := do
  let scope ← setting.tree.fetchScope ledger.command
  let ofOptions ← scope.options.mapM (ledger.missingOption setting)
  return ofOptions.flatten ++ (setting.blank.missingCommand? ledger.command).toList

/-- Selects an action; the name of its option, or of the last command, is logged. -/
def select (setting : Setting β) (ledger : Ledger) : Except Mishap Selection := do
  let acting := (ledger.options.map (·.option)).filter fun option =>
    (setting.tree.action? option).isSome
  match acting.getLast? with
  | some option => do
      setting.tree.demand option
      return { owner := some option
               ahead := acting.dropLast.filter fun earlier =>
                 (setting.tree.action? earlier).any (!·.exclusive) }
  | none => do
      setting.tree.demand ledger.command
      if (setting.tree.command? ledger.command).any (·.action.isSome) then
        return { owner := some ledger.command }
      else return {}

/-- Closes a ledger. -/
def close (setting : Setting β) (ledger : Ledger) : Except Mishap (Balance β) := do
  let bindingErrors ← ledger.bindingErrors setting
  let validationErrors ← ledger.validationErrors setting
  let omissionErrors ← ledger.omissionErrors setting
  let selection ← ledger.select setting
  return {
    tree := setting.tree
    commands := ledger.commands
    options := ledger.options
    tokens := ledger.tokens
    unmatched := ledger.unmatched
    errors := ledger.errors ++ bindingErrors ++ validationErrors ++ omissionErrors
    selection }

end Ledger

namespace Balance

/-- The last command, which has to be there. -/
def terminal (balance : Balance β) : Except Mishap SymbolId :=
  match balance.commands.getLast? with
  | some found => return found.command
  | none => throw .noCommand

/-- The occurrences of an option that was matched. -/
def option? (balance : Balance β) (option : SymbolId) : Option OptionMatch :=
  balance.options.find? (·.option = option)

/-- The values bound to an argument, positional or behind an option. -/
def binding? (balance : Balance β) (argument : SymbolId) : Option Binding :=
  (balance.commands.flatMap (·.arguments) ++ balance.options.map (·.binding)).find?
    (·.argument = argument)

/-- Whether a command, option or argument took part in the command line. -/
def isMatched (balance : Balance β) (id : SymbolId) : Bool :=
  match balance.tree.role? id with
  | some (.command _) => balance.commands.any (·.command = id)
  | some (.option _) => (balance.option? id).isSome
  | some (.argument _) => (balance.binding? id).any (!·.values.isEmpty)
  | none => false

/-- The value of a given argument. -/
def argumentValue (balance : Balance β) (argument : SymbolId) : Evaluating (Option Value) :=
  match balance.tree.argument? argument with
  | none => pure none
  | some node =>
      match (balance.binding? argument).map fun binding => node.settle binding.raws with
      | some (.converted (.ok value)) => pure (some value)
      | some (.converted (.error _)) => pure none
      | _ => (node.fallback argument).value

/-- The value of an option or an argument. -/
def valueOf (balance : Balance β) (id : SymbolId) : Evaluating (Option Value) :=
  match balance.tree.role? id with
  | some (.option node) => balance.argumentValue node.argument
  | some (.argument _) => balance.argumentValue id
  | _ => pure none

end Balance

/-- Keeps a ledger of a command line and closes it. The names of the first command and of the last
one are logged. -/
def CommandTree.balance (tree : CommandTree β) (config : Config) (start : SymbolId)
    (texts : List String) : Except Mishap (Balance β) := do
  tree.demand start
  let setting := Setting.of tree config
  let ledger ← Ledger.start tree start
  let ledger ← ledger.walk setting 0 texts
  let balance ← ledger.close setting
  tree.demand (← balance.terminal)
  return balance

/-- The balance that says what a report says. -/
def Report.balance (report : Report β) : Balance β where
  tree := report.tree
  commands := report.path
  options := report.options
  tokens := report.tokens
  unmatched := report.unmatched
  errors := report.errors
  selection := report.selection

/-- A balance that says what a report says, and answers like it to every number. -/
structure Balance.Tells (balance : Balance β) (report : Report β) : Prop where
  eq_balance : balance = report.balance
  terminal : balance.terminal = .ok report.terminal
  option? : ∀ id, balance.option? id = report.option? id
  binding? : ∀ id, balance.binding? id = report.binding? id
  isMatched : ∀ id, balance.isMatched id = report.isMatched id
  valueOf : ∀ id, balance.valueOf id = report.valueOf id
  /-- What has no symbol was not matched, and has no values. -/
  unknown : ∀ id, report.tree.symbol? id = none →
    balance.isMatched id = false ∧ balance.binding? id = none ∧ balance.valueOf id = pure none

/-! ## What is looked up is there -/

namespace Report.Genuine

variable {report : Report β}

/-- The commands on the path are there if the first one is. -/
theorem demand_of_mem_path (h : report.Genuine)
    (hstart : (report.tree.symbol? report.start).isSome) {command : SymbolId}
    (hcommand : command ∈ Reading.path report.start report.readings) :
    report.tree.demand command = .ok () := by
  apply CommandTree.demand_eq_ok
  rcases List.mem_cons.mp hcommand with rfl | hmem
  · exact hstart
  · obtain ⟨reading, hreading, hdescent⟩ := List.mem_filterMap.mp hmem
    exact h.wellFormed.isSome_of_mem_commands (h.trace.mem_commands_of_descent? hreading hdescent)

/-- The deepest command that was named is there if the first one is. -/
theorem demand_terminal (h : report.Genuine)
    (hstart : (report.tree.symbol? report.start).isSome) :
    report.tree.demand report.terminal = .ok () :=
  h.demand_of_mem_path hstart (Reading.current_mem_path _ _)

/-- The matched options are there. -/
theorem demand_of_mem_options (h : report.Genuine) {found : OptionMatch}
    (hfound : found ∈ report.options) : report.tree.demand found.option = .ok () := by
  obtain ⟨option, hoption, rfl⟩ := List.mem_map.mp hfound
  obtain ⟨node, hnode⟩ := h.exists_option? hoption
  exact CommandTree.demand_eq_ok
    (CommandTree.isSome_symbol?_of_option? (Option.isSome_iff_exists.mpr ⟨node, hnode⟩))

/-- The positional arguments with values are there. -/
theorem demand_of_mem_arguments (h : report.Genuine) {binding : Binding}
    (hbinding : binding ∈ report.path.flatMap (·.arguments)) :
    report.tree.demand binding.argument = .ok () :=
  CommandTree.demand_eq_ok
    (CommandTree.isSome_symbol?_of_argument? (h.isSome_argument? (List.mem_append_left _ hbinding)))

end Report.Genuine

namespace Ledger

variable {setting : Setting β} {start : SymbolId} {cursor : Cursor}

/-- The errors about numbers of values and conversions are found without mishap. -/
theorem bindingErrors_of (hgenuine : (cursor.report setting start).Genuine)
    (hstart : (setting.tree.symbol? start).isSome) :
    (of setting start cursor).bindingErrors setting =
      .ok (cursor.report setting start).bindingErrors := by
  have hoptions : (cursor.report setting start).options.mapM (fun found => do
      setting.tree.demand found.option
      return (setting.blank.optionBindingError? found).toList) =
      .ok ((cursor.report setting start).options.map fun found =>
        ((cursor.report setting start).optionBindingError? found).toList) := by
    apply Sequence.mapM_eq_ok
    intro found hfound
    have hdemand : setting.tree.demand found.option = .ok () :=
      hgenuine.demand_of_mem_options hfound
    rw [hdemand]
    rfl
  have hcommands : (cursor.report setting start).path.mapM (fun found => do
      setting.tree.demand found.command
      return setting.blank.argumentErrors found) =
      .ok ((cursor.report setting start).path.map
        (cursor.report setting start).argumentErrors) := by
    apply Sequence.mapM_eq_ok
    intro found hfound
    have hdemand : setting.tree.demand found.command = .ok () :=
      hgenuine.demand_of_mem_path hstart
        (Report.map_command_path _ ▸ List.mem_map_of_mem hfound)
    rw [hdemand]
    rfl
  rw [bindingErrors, Report.bindingErrors, List.filterMap_eq_flatMap_toList]
  simp only [of, hoptions, hcommands, Sequence.ok_bind]
  rfl

/-- The errors about values that validators reject are found without mishap. -/
theorem validationErrors_of (hgenuine : (cursor.report setting start).Genuine) :
    (of setting start cursor).validationErrors setting =
      .ok (cursor.report setting start).validationErrors := by
  have hoptions : (cursor.report setting start).options.mapM (fun found => do
      if (setting.blank.settle found.binding).value?.isSome then setting.tree.demand found.option
      return setting.blank.optionRejections found) =
      .ok ((cursor.report setting start).options.map
        (cursor.report setting start).optionRejections) := by
    apply Sequence.mapM_eq_ok
    intro found hfound
    have hdemand : setting.tree.demand found.option = .ok () :=
      hgenuine.demand_of_mem_options hfound
    rw [hdemand]
    exact ite_self _
  have harguments : ((cursor.report setting start).path.flatMap (·.arguments)).mapM
      (fun binding => do
        if (setting.blank.settle binding).value?.isSome then setting.tree.demand binding.argument
        return setting.blank.argumentRejections binding) =
      .ok (((cursor.report setting start).path.flatMap (·.arguments)).map
        (cursor.report setting start).argumentRejections) := by
    apply Sequence.mapM_eq_ok
    intro binding hbinding
    have hdemand : setting.tree.demand binding.argument = .ok () :=
      hgenuine.demand_of_mem_arguments hbinding
    rw [hdemand]
    exact ite_self _
  simp only [validationErrors, of, hoptions, harguments, Sequence.ok_bind]
  rfl

/-- The error about an option in scope that was not given is found without mishap. -/
theorem missingOption_of (h : setting.Proper) {option : SymbolId}
    (hoption : option ∈ (setting.tree.scope cursor.command).options) :
    (of setting start cursor).missingOption setting option =
      .ok ((cursor.report setting start).missingOption? option).toList := by
  have hdemand := CommandTree.demand_eq_ok
    (CommandTree.isSome_symbol?_of_option? (h.wellFormed.isSome_of_mem_scope_options hoption))
  have hplaces : ((of setting start cursor).places.lookup option).isNone ↔
      option ∉ (cursor.report setting start).optionIds := by
    by_cases hmem : option ∈ (cursor.report setting start).optionIds
    · obtain ⟨place, hlookup, -⟩ := Sequence.exists_lookup_zipIdx hmem 0
      simp [of, hlookup, hmem]
    · simp [of, Sequence.lookup_zipIdx_of_notMem hmem 0, hmem]
  have herror : (cursor.report setting start).missingOption? option =
      if setting.tree.isRequired option ∧ option ∉ (cursor.report setting start).optionIds
          ∧ !(setting.tree.slot? option).any (·.default.isSome) then
        some ⟨.missingOption (setting.tree.displayName option), none, some option⟩
      else none := rfl
  rw [missingOption, hdemand, herror]
  simp only [hplaces]
  split <;> rfl

/-- The errors about what was not given are found without mishap. -/
theorem omissionErrors_of (h : setting.Proper) (hcursor : cursor.Consistent setting start) :
    (of setting start cursor).omissionErrors setting =
      .ok (cursor.report setting start).omissionErrors := by
  have hterminal : (cursor.report setting start).terminal = cursor.command := hcursor.command.symm
  have hoptions : (setting.tree.scope cursor.command).options.mapM
      ((of setting start cursor).missingOption setting) =
      .ok ((setting.tree.scope cursor.command).options.map fun option =>
        ((cursor.report setting start).missingOption? option).toList) := by
    apply Sequence.mapM_eq_ok
    intro option hoption
    exact missingOption_of h hoption
  rw [omissionErrors, Report.omissionErrors, List.filterMap_eq_flatMap_toList, hterminal,
    show (cursor.report setting start).setting.scope = setting.tree.scope from h.scope,
    show (of setting start cursor).command = cursor.command from rfl,
    h.wellFormed.fetchScope_eq_ok]
  simp only [Sequence.ok_bind, hoptions]
  rfl

/-- An action is selected without mishap. -/
theorem select_of (h : setting.Proper) (hcursor : cursor.Consistent setting start)
    (hstart : (setting.tree.symbol? start).isSome) :
    (of setting start cursor).select setting = .ok (cursor.report setting start).selection := by
  have hgenuine := hcursor.genuine h
  have hacting : ((of setting start cursor).options.map (·.option)).filter
      (fun option => (setting.tree.action? option).isSome) =
      (cursor.report setting start).actingOptions := by
    rw [show (of setting start cursor).options = (cursor.report setting start).options from rfl,
      Report.map_option_options]
    rfl
  rw [select, hacting, Report.selection]
  cases hlast : (cursor.report setting start).actingOptions.getLast? with
  | some option =>
    have hmem : option ∈ (cursor.report setting start).optionIds :=
      List.mem_of_mem_filter (List.mem_of_getLast? hlast)
    have hdemand : setting.tree.demand option = .ok () :=
      hgenuine.demand_of_mem_options (List.mem_map_of_mem hmem)
    simp only [hdemand]
    rfl
  | none =>
    have hterminal : (cursor.report setting start).terminal = cursor.command :=
      hcursor.command.symm
    have hdemand : setting.tree.demand cursor.command = .ok () :=
      hterminal ▸ hgenuine.demand_terminal hstart
    rw [hterminal, show (of setting start cursor).command = cursor.command from rfl, hdemand]
    exact (apply_ite Except.ok _ _ _).symm

/-- The ledger of a cursor is closed without mishap, with the balance of its report. -/
theorem close_of (h : setting.Proper) (hcursor : cursor.Consistent setting start)
    (hstart : (setting.tree.symbol? start).isSome) :
    (of setting start cursor).close setting = .ok (cursor.report setting start).balance := by
  have hgenuine := hcursor.genuine h
  rw [close, bindingErrors_of hgenuine hstart, validationErrors_of hgenuine,
    omissionErrors_of h hcursor, select_of h hcursor hstart]
  rfl

end Ledger

/-! ## What a balance says -/

namespace Report

variable {report : Report β}

/-- The last command of a balance is the deepest one that was named. -/
theorem terminal_balance (report : Report β) : report.balance.terminal = .ok report.terminal := by
  have hlast := Reading.getLast?_path report.start report.readings
  rw [← map_command_path, List.getLast?_map, Option.map_eq_some_iff] at hlast
  obtain ⟨found, hfound, hcommand⟩ := hlast
  rw [Balance.terminal, show report.balance.commands = report.path from rfl, hfound]
  exact congrArg Except.ok hcommand

/-- The value of an argument in a balance is the value of its origin. -/
theorem argumentValue_balance (report : Report β) (argument : SymbolId) :
    report.balance.argumentValue argument = (report.argumentOrigin argument).value := by
  rw [Balance.argumentValue, argumentOrigin, show report.balance.tree = report.tree from rfl,
    show report.balance.binding? argument = report.binding? argument from rfl]
  cases report.tree.argument? argument with
  | none => rfl
  | some node =>
    cases report.binding? argument with
    | none => rfl
    | some binding =>
      simp only [Option.map_some]
      cases node.settle binding.raws with
      | converted value => cases value <;> rfl
      | _ => rfl

/-- The values in a balance are those in the report. -/
theorem valueOf_balance (report : Report β) (id : SymbolId) :
    report.balance.valueOf id = report.valueOf id := by
  rw [Balance.valueOf, valueOf, origin, show report.balance.tree = report.tree from rfl]
  cases report.tree.role? id with
  | none => rfl
  | some role =>
    cases role with
    | command node => rfl
    | option node => exact argumentValue_balance report node.argument
    | argument node => exact argumentValue_balance report id

/-- Nothing was bound to a number that no symbol has. -/
theorem Genuine.binding?_eq_none (h : report.Genuine) {id : SymbolId}
    (hnone : report.tree.symbol? id = none) : report.binding? id = none := by
  rw [binding?, List.find?_eq_none]
  intro binding hbinding heq
  have hargument := CommandTree.isSome_symbol?_of_argument? (h.isSome_argument? hbinding)
  rw [of_decide_eq_true heq, hnone] at hargument
  exact Bool.false_ne_true hargument

/-- The balance of a genuine report tells all that the report does. -/
theorem Genuine.tells_balance (h : report.Genuine) : report.balance.Tells report where
  eq_balance := rfl
  terminal := terminal_balance report
  option? _ := rfl
  binding? _ := rfl
  isMatched _ := rfl
  valueOf := valueOf_balance report
  unknown id hnone := by
    have hrole : report.balance.tree.role? id = none := by
      rw [CommandTree.role?, show report.balance.tree = report.tree from rfl, hnone]
      rfl
    refine ⟨?_, h.binding?_eq_none hnone, ?_⟩
    · rw [Balance.isMatched, hrole]
    · rw [Balance.valueOf, hrole]

end Report

namespace CommandTree

variable {tree : CommandTree β} {config : Config} {start : SymbolId}

/-- In a well-formed tree a ledger of any texts is kept and closed without mishap. -/
theorem WellFormed.balance_eq_ok (h : tree.WellFormed) (hstart : (tree.symbol? start).isSome)
    (hdelimiters : ∀ d ∈ config.inlineDelimiters, d.utf8Size = 1) (texts : List String) :
    tree.balance config start texts = .ok (tree.report config start texts).balance := by
  have hproper : (Setting.of tree config).Proper := ⟨h, rfl, hdelimiters⟩
  have hcursor := @consistent_cursorAfter β tree config start texts
  have hstarted : Ledger.start tree start = _ := Ledger.start_eq_ok hproper start
  have hwalk : Ledger.walk (Setting.of tree config) 0 texts (Ledger.of _ start _) =
      .ok (Ledger.of _ start (tree.cursorAfter config start texts)) :=
    Ledger.walk_start hproper start texts
  have hclose : (Ledger.of _ start (tree.cursorAfter config start texts)).close _ =
      .ok (tree.report config start texts).balance := Ledger.close_of hproper hcursor hstart
  have hdemand : tree.demand (tree.report config start texts).terminal = .ok () :=
    (h.genuine texts).demand_terminal hstart
  rw [balance, demand_eq_ok hstart]
  simp only [Sequence.ok_bind, hstarted, hwalk, hclose, Report.terminal_balance, hdemand]
  rfl

/-- From every symbol of a reachable tree, with delimiters of one byte, any texts are parsed. A ledger
of them is kept and closed without mishap, and its balance tells what the report does. -/
theorem exists_balance (h : Reachable tree) (hstart : (tree.symbol? start).isSome)
    (hdelimiters : ∀ d ∈ config.inlineDelimiters, d.utf8Size = 1) (texts : List String) :
    ∃ report balance, tree.parse config start texts = .ok report ∧
      tree.balance config start texts = .ok balance ∧ balance.Tells report :=
  ⟨_, _, parse_eq_report hstart hdelimiters texts,
    h.wellFormed.balance_eq_ok hstart hdelimiters texts, (h.wellFormed.genuine texts).tells_balance⟩

/-- Reading from an option, with characters of several bytes around delimiters, meets no mishap. -/
theorem exists_balance_sample : ∃ report balance,
    sample.parse {} 1 ["--täg=ü", "-t=€,", "-", "—=", "--", "build"] = .ok report ∧
      sample.balance {} 1 ["--täg=ü", "-t=€,", "-", "—=", "--", "build"] = .ok balance ∧
        balance.Tells report :=
  exists_balance reachable_sample (by decide) Config.utf8Size_eq_one _

end CommandTree

end CommandLine
