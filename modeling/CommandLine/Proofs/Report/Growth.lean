import CommandLine.Proofs.CommandTree.Growth
import CommandLine.Proofs.Report.Symbols
import CommandLine.Report.Diagnosis
import CommandLine.Report.Origin
import CommandLine.Report.Selection

/-!
# Reports against a tree that grows

Something new below a command leaves alone every command line whose path it does not reach. The
tokens are read as before, so the report against the grown tree has the same readings, and whatever
else a report asks its tree is about a symbol that was there already and looks the same.

A subcommand or a positional argument is within reach of its own command only, and so is an option
that is not inherited; an inherited option is within reach of the descendants as well.
-/

namespace CommandLine

variable {β : Type}

namespace Report

/-- The same readings, asked about against another tree. -/
def against (report : Report β) (next : CommandTree β) : Report β :=
  { report with setting := Setting.of next report.config }

/-- A later report of a command line that says all that an earlier one says. -/
structure Undisturbed (before after : Report β) : Prop where
  path : after.path = before.path
  options : after.options = before.options
  /-- What becomes of raw values, conversions included. -/
  settle : ∀ binding ∈ before.bindings, after.settle binding = before.settle binding
  tokens : after.tokens = before.tokens
  unmatched : after.unmatched = before.unmatched
  /-- All errors with their places and suggestions, in order. -/
  errors : after.errors = before.errors
  selection : after.selection = before.selection
  action? : after.action? = before.action?
  actionsAhead : after.actionsAhead = before.actionsAhead
  valueOf : ∀ id < before.tree.size, after.valueOf id = before.valueOf id

/-- A report whose path is out of reach of what a tree grew by. -/
structure Unreached (report : Report β) (next : CommandTree β) (parent : SymbolId)
    (inherited : Bool) : Prop where
  genuine : report.Genuine
  grown : report.tree.Grown next parent inherited
  start_lt : report.start < report.tree.size
  outOfReach : ∀ command ∈ Reading.path report.start report.readings,
    report.tree.OutOfReach parent inherited command

variable {report : Report β} {next : CommandTree β} {parent : SymbolId} {inherited : Bool}

/-- The tree of a report against a tree. -/
@[simp] theorem tree_against : (report.against next).tree = next := rfl

/-- A report keeps its configuration. -/
@[simp] theorem config_against : (report.against next).config = report.config := rfl

/-- The scopes of a report against a tree are those of the tree. -/
@[simp] theorem scope_against : (report.against next).setting.scope = next.scope := rfl

/-- The commands on a path are symbols of the tree if the first one is. -/
theorem Genuine.lt_size_of_mem_path (h : report.Genuine) (hstart : report.start < report.tree.size)
    {command : SymbolId} (hcommand : command ∈ Reading.path report.start report.readings) :
    command < report.tree.size := by
  rcases List.mem_cons.mp hcommand with rfl | hcommand
  · exact hstart
  · obtain ⟨reading, hmem, hdescent⟩ := List.mem_filterMap.mp hcommand
    exact h.wellFormed.lt_size_of_mem_commands (h.trace.mem_commands_of_descent? hmem hdescent)

/-- The deepest command is on the path. -/
theorem terminal_mem_path (report : Report β) :
    report.terminal ∈ Reading.path report.start report.readings :=
  Reading.current_mem_path report.start report.readings

/-- What a report selects is a matched option or its deepest command. -/
theorem mem_optionIds_or_eq_terminal (report : Report β) {id : SymbolId}
    (hid : report.selection.owner = some id ∨ id ∈ report.selection.ahead) :
    id ∈ report.optionIds ∨ id = report.terminal := by
  rw [selection] at hid
  cases hacting : report.actingOptions.getLast? with
  | some option =>
    simp only [hacting] at hid
    refine Or.inl ?_
    rcases hid with howner | hahead
    · obtain rfl := Option.some.inj howner
      exact List.mem_of_mem_filter (List.mem_of_getLast? hacting)
    · have hearlier := (List.dropLast_sublist _).subset (List.mem_of_mem_filter hahead)
      exact List.mem_of_mem_filter hearlier
  | none =>
    simp only [hacting] at hid
    split at hid
    · have howner : report.terminal = id := by simpa using hid
      exact Or.inr howner.symm
    · simp at hid

/-- The value of an option is that of its argument, and only options and arguments have values. -/
theorem origin_eq (report : Report β) (id : SymbolId) :
    report.origin id =
      match report.tree.option? id, report.tree.argument? id with
      | some node, _ => report.argumentOrigin node.argument
      | none, some _ => report.argumentOrigin id
      | none, none => .absent := by
  rw [origin, CommandTree.role?, CommandTree.option?, CommandTree.argument?]
  cases report.tree.symbol? id with
  | none => rfl
  | some symbol =>
    cases hrole : symbol.role <;> simp [Symbol.option?, Symbol.argument?, hrole]

namespace Unreached

variable {command option argument id : SymbolId} {binding : Binding} {found : CommandMatch}

/-! ## Symbols that a report asks about -/

/-- The commands on the path are symbols that were there. -/
theorem lt_size (h : report.Unreached next parent inherited)
    (hcommand : command ∈ Reading.path report.start report.readings) :
    command < report.tree.size :=
  h.genuine.lt_size_of_mem_path h.start_lt hcommand

/-- A command on the path is what it was. -/
theorem command?_eq (h : report.Unreached next parent inherited)
    (hcommand : command ∈ Reading.path report.start report.readings) :
    next.command? command = report.tree.command? command :=
  h.grown.command?_eq (h.lt_size hcommand) (h.outOfReach command hcommand).ne

/-- The scope of a command on the path is what it was. -/
theorem scope_eq (h : report.Unreached next parent inherited)
    (hcommand : command ∈ Reading.path report.start report.readings) :
    next.scope command = report.tree.scope command :=
  h.grown.scope_eq h.genuine.wellFormed (h.lt_size hcommand) (h.outOfReach command hcommand)

/-- A matched option looks the same. -/
theorem alikeAt_option (h : report.Unreached next parent inherited)
    (hoption : option ∈ report.optionIds) : report.tree.AlikeAt next option := by
  have hsome := Option.isSome_iff_exists.mpr (h.genuine.exists_option? hoption)
  exact h.grown.alikeAt option (CommandTree.lt_size_of_isSome_bind hsome)

/-- An argument with a binding looks the same. -/
theorem alikeAt_argument (h : report.Unreached next parent inherited)
    (hbinding : binding ∈ report.bindings) : report.tree.AlikeAt next binding.argument := by
  have hsome := h.genuine.isSome_argument? hbinding
  exact h.grown.alikeAt _ (CommandTree.lt_size_of_isSome_bind hsome)

/-- The binding of a matched option is one of the report. -/
theorem mem_bindings_of_mem_options {found : OptionMatch} (hfound : found ∈ report.options) :
    found.binding ∈ report.bindings :=
  List.mem_append_right _ (List.mem_map_of_mem hfound)

/-! ## The views of a report -/

/-- The matched options are what they were. -/
theorem options_against (h : report.Unreached next parent inherited) :
    (report.against next).options = report.options := by
  rw [options, options]
  refine List.map_congr_left fun option hoption => ?_
  have hslot : (report.against next).slotId option = report.slotId option := by
    rw [slotId, slotId, tree_against, (h.alikeAt_option hoption).option?]
  rw [optionMatch, hslot]
  rfl

/-- The path is what it was. -/
theorem path_against (h : report.Unreached next parent inherited) :
    (report.against next).path = report.path := by
  have hmatch : ∀ command token,
      (report.against next).commandMatch command token = report.commandMatch command token := by
    intro command token
    rw [commandMatch, h.options_against]
    rfl
  simp only [path, hmatch]
  rfl

/-- The bindings are what they were. -/
theorem bindings_against (h : report.Unreached next parent inherited) :
    (report.against next).bindings = report.bindings := by
  rw [bindings, bindings, h.path_against, h.options_against]

/-- What becomes of the raw values of a binding is what became of them. -/
theorem settle_against (h : report.Unreached next parent inherited)
    (hbinding : binding ∈ report.bindings) :
    (report.against next).settle binding = report.settle binding := by
  rw [settle, settle, tree_against, (h.alikeAt_argument hbinding).argument?]

/-! ## Errors -/

/-- The same is wrong with a token that matches nothing, and the same text is suggested. -/
theorem unrecognized?_against (h : report.Unreached next parent inherited) {reading : Reading}
    (hmem : reading ∈ report.readings) :
    (report.against next).unrecognized? reading = report.unrecognized? reading := by
  have hcommand := h.genuine.trace.command_mem_path hmem
  have hcandidates := h.grown.candidates_eq h.genuine.wellFormed (h.lt_size hcommand)
    (h.outOfReach _ hcommand).ne
  simp only [unrecognized?, tree_against, config_against, scope_against, h.command?_eq hcommand,
    h.scope_eq hcommand, hcandidates, h.genuine.scope]

/-- The same is wrong with the values of a binding. -/
theorem bindingError?_against (h : report.Unreached next parent inherited)
    (hbinding : binding ∈ report.bindings) (owner : Owner) (position : Option ℕ) :
    (report.against next).bindingError? owner position binding =
      report.bindingError? owner position binding := by
  rw [bindingError?, bindingError?, tree_against, (h.alikeAt_argument hbinding).argument?]

/-- The same is wrong with the positional arguments of a command on the path. -/
theorem argumentErrors_against (h : report.Unreached next parent inherited)
    (hfound : found ∈ report.path) :
    (report.against next).argumentErrors found = report.argumentErrors found := by
  have hcommand : found.command ∈ Reading.path report.start report.readings := by
    rw [← map_command_path]
    exact List.mem_map_of_mem hfound
  have hname := (h.grown.alikeAt _ (h.lt_size hcommand)).name
  have harguments : next.arguments found.command = report.tree.arguments found.command := by
    rw [CommandTree.arguments, CommandTree.arguments, h.command?_eq hcommand]
  rw [argumentErrors, argumentErrors, tree_against, hname, harguments]
  congr 1
  · refine List.filterMap_congr fun binding hbinding => h.bindingError?_against ?_ _ _
    exact List.mem_append_left _ (List.mem_flatMap.mpr ⟨found, hfound, hbinding⟩)
  · refine List.filterMap_congr fun argument hargument => ?_
    have hlt := h.genuine.wellFormed.lt_size_of_mem_arguments hargument
    rw [missingArgument?, missingArgument?, tree_against, (h.grown.alikeAt _ hlt).argument?, hname]

/-- The same values of options are rejected. -/
theorem optionRejections_against (h : report.Unreached next parent inherited)
    {found : OptionMatch} (hfound : found ∈ report.options) :
    (report.against next).optionRejections found = report.optionRejections found := by
  obtain ⟨option, hoption, rfl⟩ := List.mem_map.mp hfound
  have hbinding := mem_bindings_of_mem_options hfound
  have hsame := h.alikeAt_option hoption
  rw [optionRejections, optionRejections, h.settle_against hbinding, tree_against,
    (h.alikeAt_argument hbinding).argument?]
  simp only [show (report.optionMatch option).option = option from rfl, hsame.option?,
    hsame.displayName]

/-- The same values of positional arguments are rejected. -/
theorem argumentRejections_against (h : report.Unreached next parent inherited)
    (hbinding : binding ∈ report.bindings) :
    (report.against next).argumentRejections binding = report.argumentRejections binding := by
  have hsame := h.alikeAt_argument hbinding
  rw [argumentRejections, argumentRejections, h.settle_against hbinding, tree_against,
    hsame.argument?, hsame.name]

/-- The same is missing at the deepest command. -/
theorem omissionErrors_against (h : report.Unreached next parent inherited) :
    (report.against next).omissionErrors = report.omissionErrors := by
  have hterminal := report.terminal_mem_path
  have hcommand := h.command?_eq hterminal
  rw [omissionErrors, omissionErrors, scope_against, h.genuine.scope]
  change (next.scope report.terminal).options.filterMap _ ++ _ = _
  rw [h.scope_eq hterminal]
  congr 1
  · refine List.filterMap_congr fun option hoption => ?_
    have hlt := CommandTree.lt_size_of_isSome_bind
      (h.genuine.wellFormed.isSome_of_mem_scope_options hoption)
    have hsame := h.grown.alikeAt option hlt
    simp only [missingOption?, tree_against, hsame.isRequired, hsame.displayName,
      h.grown.slot?_eq h.genuine.wellFormed hlt]
    rfl
  · change ((report.against next).missingCommand? report.terminal).toList = _
    simp only [missingCommand?, tree_against, hcommand]

/-- The same is wrong with the command line. -/
theorem errors_against (h : report.Unreached next parent inherited) :
    (report.against next).errors = report.errors := by
  have hunrecognized : (report.against next).unrecognizedErrors = report.unrecognizedErrors :=
    List.filterMap_congr fun reading hmem =>
      h.unrecognized?_against (List.mem_of_mem_filter hmem)
  have hbindings : (report.against next).bindingErrors = report.bindingErrors := by
    rw [bindingErrors, bindingErrors, h.options_against, h.path_against]
    congr 1
    · refine List.filterMap_congr fun found hfound => ?_
      obtain ⟨option, hoption, rfl⟩ := List.mem_map.mp hfound
      rw [optionBindingError?, optionBindingError?,
        h.bindingError?_against (mem_bindings_of_mem_options hfound), tree_against,
        show (report.optionMatch option).option = option from rfl,
        (h.alikeAt_option hoption).displayName]
    · exact List.flatMap_congr fun found hfound => h.argumentErrors_against hfound
  have hvalidation : (report.against next).validationErrors = report.validationErrors := by
    rw [validationErrors, validationErrors, h.options_against, h.path_against]
    congr 1
    · exact List.flatMap_congr fun found hfound => h.optionRejections_against hfound
    · exact List.flatMap_congr fun binding hbinding =>
        h.argumentRejections_against (List.mem_append_left _ hbinding)
  rw [errors, errors, hunrecognized, hbindings, hvalidation, h.omissionErrors_against]

/-! ## Actions and values -/

/-- The same symbols are selected. -/
theorem selection_against (h : report.Unreached next parent inherited) :
    (report.against next).selection = report.selection := by
  have hacting : (report.against next).actingOptions = report.actingOptions := by
    refine List.filter_congr fun option hoption => ?_
    rw [tree_against, (h.alikeAt_option hoption).action?]
  have hearlier : ∀ option ∈ report.actingOptions.dropLast,
      ((report.against next).tree.action? option).any (!·.exclusive) =
        (report.tree.action? option).any (!·.exclusive) := by
    intro option hoption
    have hmem := List.mem_of_mem_filter ((List.dropLast_sublist _).subset hoption)
    rw [tree_against, (h.alikeAt_option hmem).action?]
  rw [tree_against] at hearlier
  have hterminal := h.command?_eq report.terminal_mem_path
  rw [selection, selection, hacting, tree_against,
    show (report.against next).terminal = report.terminal from rfl, hterminal]
  cases report.actingOptions.getLast? with
  | none => rfl
  | some option => simp only [List.filter_congr hearlier]

/-- Whatever is selected looks the same. -/
theorem alikeAt_of_selection (h : report.Unreached next parent inherited)
    (hid : report.selection.owner = some id ∨ id ∈ report.selection.ahead) :
    report.tree.AlikeAt next id := by
  rcases report.mem_optionIds_or_eq_terminal hid with hoption | rfl
  · exact h.alikeAt_option hoption
  · exact h.grown.alikeAt _ (h.lt_size report.terminal_mem_path)

/-- The same action is selected. -/
theorem action?_against (h : report.Unreached next parent inherited) :
    (report.against next).action? = report.action? := by
  rw [Report.action?, Report.action?, h.selection_against, tree_against]
  cases howner : report.selection.owner with
  | none => rfl
  | some id => exact (h.alikeAt_of_selection (Or.inl howner)).action?

/-- The same actions run ahead of the selected one. -/
theorem actionsAhead_against (h : report.Unreached next parent inherited) :
    (report.against next).actionsAhead = report.actionsAhead := by
  rw [actionsAhead, actionsAhead, h.selection_against, tree_against]
  exact List.filterMap_congr fun id hid => (h.alikeAt_of_selection (Or.inr hid)).action?

/-- The value of an argument comes from where it came from. -/
theorem argumentOrigin_against (h : report.Unreached next parent inherited)
    (hid : argument < report.tree.size) :
    (report.against next).argumentOrigin argument = report.argumentOrigin argument := by
  rw [argumentOrigin, argumentOrigin, tree_against, (h.grown.alikeAt _ hid).argument?, binding?,
    binding?, h.bindings_against]

/-- The value of a symbol that was there comes from where it came from. -/
theorem origin_against (h : report.Unreached next parent inherited) (hid : id < report.tree.size) :
    (report.against next).origin id = report.origin id := by
  have hsame := h.grown.alikeAt id hid
  rw [origin_eq, origin_eq, tree_against, hsame.option?, hsame.argument?]
  cases hoption : report.tree.option? id with
  | some node =>
    have hslot := (h.genuine.wellFormed.of_option? hoption).1
    exact h.argumentOrigin_against (CommandTree.lt_size_of_isSome_bind hslot)
  | none =>
    cases report.tree.argument? id with
    | none => rfl
    | some node => exact h.argumentOrigin_against hid

/-- A report that is out of reach is undisturbed. -/
theorem undisturbed (h : report.Unreached next parent inherited) :
    report.Undisturbed (report.against next) := by
  refine ⟨h.path_against, h.options_against, ?_, rfl, rfl, h.errors_against,
    h.selection_against, h.action?_against, h.actionsAhead_against, ?_⟩
  · exact fun binding hbinding => h.settle_against hbinding
  · intro id hid
    rw [valueOf, valueOf, h.origin_against hid]

end Unreached

end Report

namespace CommandTree

variable {tree next : CommandTree β} {config : Config} {start parent : SymbolId}
  {inherited : Bool} {texts : List String} {edit : Edit β} {reply : EditReply}

/-- Tokens are read against a tree that grew out of reach of their path as they were. -/
theorem Grown.report_eq
    (hunreached : (tree.report config start texts).Unreached next parent inherited) :
    next.report config start texts = (tree.report config start texts).against next := by
  have hcursor : next.cursorAfter config start texts = tree.cursorAfter config start texts := by
    refine Cursor.foldl_step_congr fun command hcommand => ?_
    exact hunreached.grown.agreeAt hunreached.genuine.wellFormed (hunreached.lt_size hcommand)
      (hunreached.outOfReach command hcommand)
  rw [report, hcursor]
  rfl

/-- Growing a tree does not disturb the command lines that it does not reach. From any symbol of a
reachable tree, with delimiters of one byte, every command line is parsed, and if a subcommand, an
option or an argument is then added to a command that is not on its path, nor an ancestor of one in
case of an inherited option, then it is parsed against the new tree with the same outcome. -/
theorem exists_undisturbed (h : Reachable tree) (hadds : edit.Adds parent inherited)
    (hedit : tree.edit edit = .ok (reply, next)) (hstart : (tree.symbol? start).isSome)
    (hdelimiters : ∀ d ∈ config.inlineDelimiters, d.utf8Size = 1) (texts : List String) :
    ∃ before, tree.parse config start texts = .ok before ∧
      ((∀ found ∈ before.path, tree.OutOfReach parent inherited found.command) →
        ∃ after, next.parse config start texts = .ok after ∧ before.Undisturbed after) := by
  refine ⟨_, parse_eq_report hstart hdelimiters texts, fun hout => ?_⟩
  have hgrown := h.wellFormed.grown hadds (edited_of_edit hedit)
  have hlt : start < tree.size := isSome_symbol?_iff.mp hstart
  have hunreached : (tree.report config start texts).Unreached next parent inherited := by
    refine ⟨h.wellFormed.genuine texts, hgrown, hlt, fun command hcommand => ?_⟩
    rw [← Report.map_command_path] at hcommand
    obtain ⟨found, hfound, rfl⟩ := List.mem_map.mp hcommand
    exact hout found hfound
  have hne : start ≠ parent := (hunreached.outOfReach start List.mem_cons_self).ne
  refine ⟨_, parse_eq_report ?_ hdelimiters texts, ?_⟩
  · rw [hgrown.symbol?_of_ne start hlt hne]
    exact hstart
  · rw [Grown.report_eq hunreached]
    exact hunreached.undisturbed

/-- An inherited option of a subcommand, and a command line that stays above it. -/
theorem exists_undisturbed_sample : ∃ reply next,
    sample.edit (.addOption 3 { aliases := ["--tag", "-x"] } true) = .ok (reply, next) ∧
      ∃ after, next.parse {} root ["--tag", "a", "--tog", "-x"] = .ok after ∧
        (sample.report {} root ["--tag", "a", "--tog", "-x"]).Undisturbed after := by
  refine ⟨_, _, rfl, ?_⟩
  obtain ⟨before, hbefore, hundisturbed⟩ := @exists_undisturbed Unit sample _ {} root 3 true _ _
    reachable_sample (.option { aliases := ["--tag", "-x"] } true) rfl (by decide)
    Config.utf8Size_eq_one ["--tag", "a", "--tog", "-x"]
  have hreport : before = sample.report {} root ["--tag", "a", "--tog", "-x"] := by
    rw [parse_eq_report (by decide) Config.utf8Size_eq_one] at hbefore
    exact (Except.ok.inj hbefore).symm
  subst before
  refine hundisturbed ?_
  decide +kernel

end CommandTree

end CommandLine
