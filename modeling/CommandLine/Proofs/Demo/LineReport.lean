import CommandLine.Proofs.Demo.Program
import CommandLine.Proofs.Report.Distribution

/-!
# Reports of a line

Arguments that name a command of the program which takes a line, and of which the others are neither
names nor options, have no errors. All of these others are gathered into the line, in order and
whether there was room for them or not, and the task of the command gets it.
-/

namespace CommandLine.Demo

open CommandTree

/-- A report of the program that names one command, under which all other tokens are placed. -/
structure NamesOnly (report : Report Body) (command : SymbolId) : Prop where
  genuine : report.Genuine
  tree : report.tree = program
  start : report.start = root
  descents : report.readings.filterMap Reading.descent? = [command]
  options : report.readings.filterMap Reading.option? = []
  under : ∀ reading ∈ report.readings, (∃ argument, reading.meaning = .positional argument) ∨
    reading.meaning = .unmatched → reading.command = command

variable {report : Report Body} {command line : SymbolId} {task : SymbolId → SymbolId → Task}
  {placed : List Bound}

/-- Texts that are as many as they may be are converted to a list of them. -/
theorem settle_texts {raws : List String} (hmany : raws.length ≤ Arity.many) :
    ({ type := .list .string, arity := .zeroOrMore } : ArgumentNode).settle raws =
      .converted (.ok (.list (raws.map .string))) := by
  have hvalues : (ValueType.list .string).readEach raws = .ok (raws.map .string) := by
    rw [ValueType.readEach_eq_ok_iff, List.forall₂_map_right_iff, List.forall₂_same]
    exact fun raw _ => rfl
  have hconvert : (ValueType.list .string).convert raws = .ok (.list (raws.map .string)) := by
    unfold ValueType.convert
    rw [hvalues]
    rfl
  unfold ArgumentNode.settle
  rw [if_neg (show ¬ raws.length < Arity.zeroOrMore.least from Nat.not_lt_zero _),
    if_neg (show ¬ Arity.zeroOrMore.most < raws.length from Nat.not_lt.mpr hmany),
    if_neg (by simp [ValueType.isList]), hconvert]

/-- No option of the program has to be given. -/
theorem isRequired_eq_false (option : SymbolId) : program.isRequired option = false := by
  have hall : ∀ id < program.size, program.isRequired id = false := by decide
  by_cases hoption : option < program.size
  · exact hall option hoption
  · have hnone : program.option? option = none := by
      rw [← Option.not_isSome_iff_eq_none]
      exact fun hsome => hoption (lt_size_of_isSome_bind hsome)
    rw [isRequired, hnone]
    rfl

/-- Under every command of the program the placed tokens are shared. -/
theorem shares_program (command : SymbolId) (arguments : List String) :
    (program.report {} root arguments).Shares command (program.placed {} root command arguments) :=
  reachable_program.wellFormed.shares (Nat.zero_le command)

namespace NamesOnly

/-! ## What was named -/

/-- No option was matched. -/
theorem optionIds_eq_nil (h : NamesOnly report command) : report.optionIds = [] := by
  rw [Report.optionIds, h.options]
  rfl

/-- No option is in the report. -/
theorem options_eq_nil (h : NamesOnly report command) : report.options = [] := by
  rw [Report.options, h.optionIds_eq_nil, List.map_nil]

/-- The command that was named is the deepest one. -/
theorem terminal_eq (h : NamesOnly report command) : report.terminal = command := by
  rw [Report.terminal, h.descents]
  rfl

/-- The commands on the path are the root and the command that was named. -/
theorem command_of_mem_path (h : NamesOnly report command) {found : CommandMatch}
    (hfound : found ∈ report.path) : found.command = root ∨ found.command = command := by
  have hmem : found.command ∈ report.path.map (·.command) := List.mem_map_of_mem hfound
  rw [Report.map_command_path, Reading.path, h.descents, h.start] at hmem
  simpa using hmem

/-- The positional arguments that were given values are the one for the line. -/
theorem argument_of_mem_path (h : NamesOnly report command) (htakes : TakesLine command line task)
    {found : CommandMatch} (hfound : found ∈ report.path) {binding : Binding}
    (hbinding : binding ∈ found.arguments) : binding.argument = line := by
  rw [Report.eq_commandMatch_of_mem_path hfound] at hbinding
  obtain ⟨argument, hargument, rfl⟩ := List.mem_map.mp hbinding
  have hmem := h.genuine.mem_arguments hargument
  rw [h.tree] at hmem
  rcases h.command_of_mem_path hfound with hroot | hcommand
  · rw [hroot, show program.arguments root = [] from rfl] at hmem
    cases hmem
  · rw [hcommand, htakes.arguments] at hmem
    exact List.mem_singleton.mp hmem

/-- The task of the command is selected. -/
theorem action?_eq (h : NamesOnly report command) (htakes : TakesLine command line task) :
    report.action? = some { body := .task (task line 1) } := by
  rw [Report.action?, Report.selection, Report.actingOptions, h.optionIds_eq_nil, h.terminal_eq,
    h.tree]
  simp only [List.filter_nil, List.getLast?_nil]
  rw [if_pos htakes.acts]
  exact htakes.action

/-- Nothing is bound to the argument of the option for machine-readable output, so it is off. -/
theorem isOn_eq (h : NamesOnly report command) (htakes : TakesLine command line task) :
    isOn report 1 = pure false := by
  have hline : line ≠ 2 := by
    rintro rfl
    cases htakes.argument
  have hbinding : report.binding? 2 = none := by
    rw [Report.binding?, Report.bindings, h.options_eq_nil, List.map_nil, List.append_nil,
      List.find?_eq_none]
    intro binding hmem
    obtain ⟨found, hfound, hbinding⟩ := List.mem_flatMap.mp hmem
    simpa [h.argument_of_mem_path htakes hfound hbinding] using hline
  have horigin : report.origin 1 = .unset := by
    rw [Report.origin, h.tree]
    change report.argumentOrigin 2 = .unset
    rw [Report.argumentOrigin, h.tree, hbinding]
    rfl
  rw [isOn, Report.valueOf, horigin]
  rfl

/-! ## Nothing is wrong -/

/-- The tokens that match nothing are no errors. -/
theorem unrecognizedErrors_eq_nil (h : NamesOnly report command)
    (htakes : TakesLine command line task) : report.unrecognizedErrors = [] := by
  rw [Report.unrecognizedErrors, List.filterMap_eq_nil_iff]
  intro reading hmem
  obtain ⟨hmem, hmeaning⟩ := List.mem_filter.mp hmem
  have hcommand := h.under reading hmem (.inr (by simpa using hmeaning))
  rw [Report.unrecognized?, hcommand, h.tree, htakes.lenient]
  rfl

/-- The values of the argument for the line are as many as it may have. -/
theorem length_le_many (h : NamesOnly report command) (htakes : TakesLine command line task)
    (hshares : report.Shares command placed) {found : CommandMatch} (hfound : found ∈ report.path)
    {binding : Binding} (hbinding : binding ∈ found.arguments) :
    binding.raws.length ≤ Arity.many := by
  have hline := h.argument_of_mem_path htakes hfound hbinding
  have hmem : binding ∈ report.bindings :=
    List.mem_append_left _ (List.mem_flatMap.mpr ⟨found, hfound, hbinding⟩)
  have hargument : line ∈ report.tree.arguments command := by
    rw [h.tree, htakes.arguments]
    exact List.mem_singleton_self line
  obtain ⟨node, hnode, hbounded⟩ := hshares.bounded line hargument
  rw [h.tree, htakes.argument] at hnode
  rw [Report.valuesOf, ← hline, h.genuine.binding?_of_mem hmem] at hbounded
  rw [← Option.some.inj hnode] at hbounded
  rwa [Binding.length_raws]

/-- No number of values and no conversion is wrong. -/
theorem bindingErrors_eq_nil (h : NamesOnly report command) (htakes : TakesLine command line task)
    (hshares : report.Shares command placed) : report.bindingErrors = [] := by
  rw [Report.bindingErrors, h.options_eq_nil, List.filterMap_nil, List.nil_append,
    List.flatMap_eq_nil_iff]
  intro found hfound
  rw [Report.argumentErrors, List.append_eq_nil_iff, List.filterMap_eq_nil_iff,
    List.filterMap_eq_nil_iff]
  refine ⟨fun binding hbinding => ?_, fun argument hargument => ?_⟩
  · have hline := h.argument_of_mem_path htakes hfound hbinding
    have hmany := h.length_le_many htakes hshares hfound hbinding
    rw [Report.bindingError?, hline, h.tree, htakes.argument]
    simp only [settle_texts hmany]
  · have hline : argument = line := by
      rw [h.tree] at hargument
      rcases h.command_of_mem_path hfound with hroot | hcommand
      · rw [hroot, show program.arguments root = [] from rfl] at hargument
        cases hargument
      · rw [hcommand, htakes.arguments] at hargument
        exact List.mem_singleton.mp hargument
    rw [Report.missingArgument?, hline, h.tree, htakes.argument]
    exact if_neg fun hmissing => Nat.lt_irrefl 0 hmissing.2.1

/-- No validator rejects anything. -/
theorem validationErrors_eq_nil (h : NamesOnly report command)
    (htakes : TakesLine command line task) : report.validationErrors = [] := by
  rw [Report.validationErrors, h.options_eq_nil, List.flatMap_nil, List.nil_append,
    List.flatMap_eq_nil_iff]
  intro binding hmem
  obtain ⟨found, hfound, hbinding⟩ := List.mem_flatMap.mp hmem
  rw [Report.argumentRejections, h.argument_of_mem_path htakes hfound hbinding, h.tree,
    htakes.argument]
  cases (report.settle binding).value? <;> rfl

/-- Nothing is missing. -/
theorem omissionErrors_eq_nil (h : NamesOnly report command)
    (htakes : TakesLine command line task) : report.omissionErrors = [] := by
  rw [Report.omissionErrors, List.append_eq_nil_iff, List.filterMap_eq_nil_iff]
  refine ⟨fun option _ => ?_, ?_⟩
  · rw [Report.missingOption?, h.tree, isRequired_eq_false]
    exact if_neg fun hmissing => Bool.false_ne_true hmissing.1
  · have hcommands := htakes.commands
    rw [Report.missingCommand?, h.terminal_eq, h.tree]
    rw [commands] at hcommands
    cases hnode : program.command? command with
    | none => rfl
    | some node =>
      rw [hnode] at hcommands
      simp [show node.commands = [] from hcommands]

/-- Nothing is wrong. -/
theorem errors_eq_nil (h : NamesOnly report command) (htakes : TakesLine command line task)
    (hshares : report.Shares command placed) : report.errors = [] := by
  rw [Report.errors, h.unrecognizedErrors_eq_nil htakes, h.bindingErrors_eq_nil htakes hshares,
    h.validationErrors_eq_nil htakes, h.omissionErrors_eq_nil htakes]
  rfl

/-- The task runs alone, and nothing else has to do with what it leaves behind. -/
theorem ran_eq (h : NamesOnly report command) (htakes : TakesLine command line task)
    (hshares : report.Shares command placed) :
    ran report =
      let ended := ((task line 1).perform report).run {}
      { code := ended.1.code, output := ended.2.output, errors := ended.2.errors } := by
  have haccepted : report.isRefused = false := by
    simp [Report.isRefused, h.errors_eq_nil htakes hshares]
  rw [ran, Report.run_invoke_of_alone haccepted (h.action?_eq htakes) (actionsAhead_eq_nil h.tree)]
  rfl

/-! ## The line -/

/-- The tokens that match nothing all stand under the command. -/
theorem filter_unmatched (h : NamesOnly report command) :
    report.unmatched.filter (report.commandAt ·.position = command) = report.unmatched := by
  rw [List.filter_eq_self]
  intro token htoken
  obtain ⟨reading, hmem, rfl⟩ := List.mem_map.mp htoken
  obtain ⟨hmem, hmeaning⟩ := List.mem_filter.mp hmem
  have hcommand := h.under reading hmem (.inr (by simpa using hmeaning))
  rw [show reading.token.position = reading.position from rfl, h.genuine.commandAt_eq hmem, hcommand]
  exact decide_eq_true rfl

/-- The pieces of the line are the tokens that are placed, with and without room for them. -/
theorem gatherParts_eq (h : NamesOnly report command) (htakes : TakesLine command line task)
    (hshares : report.Shares command placed) : gatherParts report line = placed := by
  have hvalues := hshares.values [] line [] (by rw [h.tree, htakes.arguments]; rfl)
  have hrest := hshares.rest
  have hsorted := h.genuine.pairwise_bound (report.IsLoose command)
  rw [h.filter_unmatched, h.tree, htakes.arguments] at hrest
  rw [hshares.loose] at hsorted
  rw [h.tree] at hvalues
  change (report.valuesOf line ++ report.unmatched.map Token.bound).mergeSort _ = _
  rw [hvalues, hrest]
  simp only [List.map_nil, List.map_cons, List.sum_nil, List.sum_cons, List.drop_zero, Nat.add_zero,
    List.take_append_drop]
  exact List.mergeSort_of_pairwise (hsorted.imp fun hlt => decide_eq_true (Nat.le_of_lt hlt))

end NamesOnly

end CommandLine.Demo
