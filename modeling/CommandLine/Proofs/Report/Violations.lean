import CommandLine.Proofs.CommandTree.WellFormed
import CommandLine.Proofs.Report.Symbols
import CommandLine.Proofs.Value.Conversion
import CommandLine.Report.Diagnosis

/-!
# Errors are violations

What can be violated is written down here without the way in which errors are found: a token that
matches nothing under a strict command, a number of values outside an arity, values that cannot be
converted, arguments and options that were not given, values that validators reject, a command that
asks for a subcommand. The errors of a report are exactly its violations, each once and in order.

The command of an unmatched token is the last one named before it on the path, and whether an
argument has values is asked of the whole report rather than of one command.
-/

namespace CommandLine

variable {β : Type}

namespace Report

/-! ## Violations -/

/-- The command that was current at a position: the last one on the path that stands before it. -/
def commandAt (report : Report β) (position : ℕ) : SymbolId :=
  ((report.path.filter fun found => found.token.all (·.position < position)).getLast?.map
    (·.command)).getD report.start

/-- The text suggested in place of a token that matches nothing. -/
def suggestionFor (report : Report β) (token : Token) : Option String :=
  let command := report.commandAt token.position
  if report.config.suggestions then
    Suggestion.nearest token.text (report.tree.candidates (report.tree.scope command) command)
  else none

/-- The tokens that match nothing although their command asks every token to match something. -/
def unrecognizedViolations (report : Report β) : List ParseError :=
  (report.unmatched.filter fun token =>
      (report.tree.command? (report.commandAt token.position)).any (·.strict)).map fun token =>
    ⟨.unrecognized token.text (report.suggestionFor token), some token.position, none⟩

/-- What is wrong with the values of an argument: their number, or else their conversion. -/
def bindingViolation? (report : Report β) (owner : Owner) (position : Option ℕ)
    (binding : Binding) : Option ParseError :=
  (report.tree.argument? binding.argument).bind fun node =>
    if node.arity.accepts binding.values.length then
      if binding.values = [] then none
      else
        match node.type.convert binding.raws with
        | .ok _ => none
        | .error error =>
            some
              ⟨.unconvertible owner (error.raw?.getD "") error.typeName,
                (binding.positionOf? (error.raw?.getD "")).or position, some binding.argument⟩
    else
      some
        ⟨if binding.values.length < node.arity.least then .tooFew owner
          else .tooMany owner node.arity.most binding.values.length,
          position, some binding.argument⟩

/-- The positional arguments of a command that need a value, have no default and no value. -/
def unboundViolations (report : Report β) (found : CommandMatch) : List ParseError :=
  ((report.tree.arguments found.command).filter fun argument =>
      (report.binding? argument).isNone &&
        (report.tree.argument? argument).any fun node =>
          decide (0 < node.arity.least) && node.default.isNone).map fun argument =>
    ⟨.tooFew (.command (report.tree.name found.command)), found.token.map (·.position),
      some argument⟩

/-- What is wrong with values before they are validated, options first, then by command. -/
def bindingViolations (report : Report β) : List ParseError :=
  (report.options.filterMap fun found =>
      report.bindingViolation? (.option (report.tree.displayName found.option))
        (found.tokens.head?.map (·.position)) found.binding) ++
    report.path.flatMap fun found =>
      found.arguments.filterMap
          (report.bindingViolation? (.command (report.tree.name found.command))
            (found.token.map (·.position))) ++
        report.unboundViolations found

/-- The value of a binding whose number of values is accepted and whose conversion succeeds. -/
def convertedValue? (report : Report β) (binding : Binding) : Option Value :=
  (report.tree.argument? binding.argument).bind fun node =>
    if node.arity.accepts binding.values.length then (node.type.convert binding.raws).toOption
    else none

/-- The validators of a matched option: its own, then those of its argument. -/
def optionValidators (report : Report β) (found : OptionMatch) : List Validator :=
  (report.tree.option? found.option).elim [] (·.validators) ++
    (report.tree.argument? found.binding.argument).elim [] (·.validators)

/-- The validators of a positional argument. -/
def argumentValidators (report : Report β) (binding : Binding) : List Validator :=
  (report.tree.argument? binding.argument).elim [] (·.validators)

/-- The validators that reject a converted value, first of options, then of positional arguments: an
error for each of them, with its complaint. -/
def rejectionViolations (report : Report β) : List ParseError :=
  (report.options.flatMap fun found =>
      (report.convertedValue? found.binding).elim [] fun value =>
        (report.optionValidators found).filterMap fun validator =>
          (validator
              ⟨found.option, report.tree.displayName found.option, found.binding.raws, value⟩).map
            fun complaint =>
              ⟨.rejected complaint, found.tokens.head?.map (·.position), some found.option⟩) ++
    (report.path.flatMap (·.arguments)).flatMap fun binding =>
      (report.convertedValue? binding).elim [] fun value =>
        (report.argumentValidators binding).filterMap fun validator =>
          (validator
              ⟨binding.argument, report.tree.name binding.argument, binding.raws, value⟩).map
            fun complaint =>
              ⟨.rejected complaint, binding.values.head?.map (·.position), some binding.argument⟩

/-- The required options visible at the deepest command that have no default and were not given. -/
def missingOptionViolations (report : Report β) : List ParseError :=
  ((report.tree.scope report.terminal).options.filter fun option =>
      report.tree.isRequired option && !report.isMatched option &&
        !(report.tree.slot? option).any (·.default.isSome)).map fun option =>
    ⟨.missingOption (report.tree.displayName option), none, some option⟩

/-- A deepest command that has subcommands and no action. -/
def missingCommandViolations (report : Report β) : List ParseError :=
  if report.tree.commands report.terminal ≠ [] ∧ report.tree.action? report.terminal = none then
    [⟨.missingCommand, none, some report.terminal⟩]
  else []

/-- Everything that a command line violates. -/
def violations (report : Report β) : List ParseError :=
  report.unrecognizedViolations ++ report.bindingViolations ++ report.rejectionViolations ++
    (report.missingOptionViolations ++ report.missingCommandViolations)

end Report

/-! ## Settlements -/

/-- An arity accepts the numbers between its bounds. -/
theorem Arity.accepts_iff {arity : Arity} {count : ℕ} :
    arity.accepts count = true ↔ arity.least ≤ count ∧ count ≤ arity.most := by
  simp [accepts]

namespace ArgumentNode

variable {node : ArgumentNode} {raws : List String}

/-- A number of values outside the arity is too small or too great. -/
theorem settle_of_not_accepts (h : node.arity.accepts raws.length = false) :
    node.settle raws = if raws.length < node.arity.least then .tooFew else .tooMany := by
  have hbounds : ¬(node.arity.least ≤ raws.length ∧ raws.length ≤ node.arity.most) := by
    rw [← Arity.accepts_iff, h]
    exact Bool.false_ne_true
  unfold settle
  split
  · rfl
  · rw [if_pos (by omega)]

/-- Values in a number that is accepted are converted if there are any. -/
theorem settle_of_ne_nil (h : node.arity.accepts raws.length = true) (hraws : raws ≠ []) :
    node.settle raws = .converted (node.type.convert raws) := by
  obtain ⟨hleast, hmost⟩ := Arity.accepts_iff.mp h
  have hempty : raws.isEmpty = false := by simpa using hraws
  unfold settle
  rw [if_neg (by omega), if_neg (by omega), if_neg (by simp [hempty])]

/-- No values, where that is accepted, stand for a value only of a list or of a truth value. -/
theorem settle_nil (h : node.arity.accepts 0 = true) :
    node.settle [] =
      if node.type.isList then .converted (.ok (.list []))
      else if node.type.isBool then .converted (.ok (.bool true))
      else .idle := by
  obtain ⟨hleast, hmost⟩ := Arity.accepts_iff.mp h
  unfold settle
  rw [List.length_nil, if_neg (by omega), if_neg (by omega), ValueType.convert_nil]
  cases hlist : node.type.isList <;> cases hbool : node.type.isBool <;> rfl

/-- A binding has a value exactly when its number of values is accepted and they are converted. -/
theorem value?_settle (node : ArgumentNode) (raws : List String) :
    (node.settle raws).value? =
      if node.arity.accepts raws.length then (node.type.convert raws).toOption else none := by
  cases haccepts : node.arity.accepts raws.length with
  | false =>
    rw [settle_of_not_accepts haccepts]
    split <;> rfl
  | true =>
    rw [if_pos rfl]
    by_cases hraws : raws = []
    · subst hraws
      rw [settle_nil haccepts, ValueType.convert_nil]
      cases node.type.isList <;> cases node.type.isBool <;> rfl
    · rw [settle_of_ne_nil haccepts hraws]
      cases node.type.convert raws <;> rfl

end ArgumentNode

namespace Report

variable {report : Report β}

/-- The error that a binding ends with is its violation. -/
theorem bindingError?_eq (report : Report β) (owner : Owner) (position : Option ℕ)
    (binding : Binding) :
    report.bindingError? owner position binding =
      report.bindingViolation? owner position binding := by
  unfold bindingError? bindingViolation?
  cases report.tree.argument? binding.argument with
  | none => rfl
  | some node =>
    simp only [Option.bind_some]
    rw [← binding.length_raws]
    cases haccepts : node.arity.accepts binding.raws.length with
    | false =>
      rw [ArgumentNode.settle_of_not_accepts haccepts, if_neg Bool.false_ne_true]
      by_cases hleast : binding.raws.length < node.arity.least
      · simp only [if_pos hleast]
      · simp only [if_neg hleast]
    | true =>
      by_cases hraws : binding.raws = []
      · rw [hraws] at haccepts ⊢
        rw [ArgumentNode.settle_nil haccepts, if_pos rfl, if_pos (Binding.raws_eq_nil_iff.mp hraws)]
        cases node.type.isList <;> cases node.type.isBool <;> rfl
      · rw [ArgumentNode.settle_of_ne_nil haccepts hraws, if_pos rfl,
          if_neg (hraws ∘ Binding.raws_eq_nil_iff.mpr)]
        cases node.type.convert binding.raws <;> rfl

/-- The value that a binding is converted to. -/
theorem value?_settle_eq (report : Report β) (binding : Binding) :
    (report.settle binding).value? = report.convertedValue? binding := by
  unfold settle convertedValue?
  cases report.tree.argument? binding.argument with
  | none => rfl
  | some node =>
    rw [← binding.length_raws]
    exact node.value?_settle binding.raws

/-- Rejected values are found as they are described. -/
theorem validationErrors_eq (report : Report β) :
    report.validationErrors = report.rejectionViolations := by
  unfold validationErrors rejectionViolations
  congr 1
  · apply List.flatMap_congr
    intro found _
    unfold optionRejections
    rw [report.value?_settle_eq]
    cases report.convertedValue? found.binding <;> rfl
  · apply List.flatMap_congr
    intro binding _
    unfold argumentRejections
    rw [report.value?_settle_eq]
    cases report.convertedValue? binding <;> rfl

/-- A command that asks for a subcommand is found as it is described. -/
theorem missingCommand?_eq (report : Report β) :
    (report.missingCommand? report.terminal).toList = report.missingCommandViolations := by
  unfold missingCommand? missingCommandViolations CommandTree.commands CommandTree.action?
    CommandTree.command?
  cases report.tree.symbol? report.terminal with
  | none => rfl
  | some symbol =>
    cases hrole : symbol.role with
    | command node =>
      simp only [Option.bind_some, Symbol.command?, Symbol.action?, hrole]
      cases hcommands : node.commands <;> cases haction : node.action <;> simp [hcommands, haction]
    | option node => simp [Symbol.command?, hrole]
    | argument node => simp [Symbol.command?, hrole]

namespace Genuine

/-- The command of a reading is the last one on the path before it. -/
theorem commandAt_eq (h : report.Genuine) {reading : Reading} (hmem : reading ∈ report.readings) :
    report.commandAt reading.position = reading.command := by
  obtain ⟨before, after, hsplit⟩ := List.append_of_mem hmem
  have hpath : (report.path.filter fun found => found.token.all (·.position < reading.position)).map
      (·.command) = Reading.path report.start before := by
    unfold path Reading.path
    rw [List.filter_cons_of_pos rfl, List.map_cons, List.filter_filterMap, List.map_filterMap,
      ← h.trace.filter_position_lt hsplit, List.filterMap_filter]
    -- The first command of the path has no token, and the others keep theirs up to the position.
    congr 1
    apply List.filterMap_congr
    intro earlier _
    cases hdescent : earlier.descent? with
    | none => simp
    | some command =>
      by_cases hlt : earlier.position < reading.position <;>
        simp [commandMatch, Reading.token, hlt]
  unfold commandAt
  rw [← List.getLast?_map, hpath, Reading.getLast?_path, (h.trace.fits hsplit).command]
  rfl

/-- Unmatched tokens are found as they are described. -/
theorem unrecognizedErrors_eq (h : report.Genuine) :
    report.unrecognizedErrors = report.unrecognizedViolations := by
  unfold unrecognizedErrors unrecognizedViolations unmatched
  rw [List.filter_map, List.map_map, ← Sequence.filterMap_ite]
  apply List.filterMap_congr
  intro reading hreading
  have hcommand := h.commandAt_eq (List.mem_of_mem_filter hreading)
  unfold unrecognized? suggestionFor
  rw [h.scope]
  simp only [Function.comp_apply, show reading.token.position = reading.position from rfl, hcommand]
  rfl

/-- Arguments without values are found as they are described. -/
theorem missingArgument?_eq (h : report.Genuine) {found : CommandMatch} (hfound : found ∈ report.path) :
    (report.tree.arguments found.command).filterMap (report.missingArgument? found) =
      report.unboundViolations found := by
  unfold unboundViolations
  rw [← Sequence.filterMap_ite]
  apply List.filterMap_congr
  intro argument hargument
  have hunbound : (report.binding? argument).isNone =
      found.arguments.all (·.argument ≠ argument) := by
    rw [Bool.eq_iff_iff, Option.isNone_iff_eq_none, h.binding?_eq_none_iff hfound hargument]
    simp
  unfold missingArgument?
  cases report.tree.argument? argument with
  | none => simp
  | some node => simp [hunbound]

/-- Required options that were not given are found as they are described. -/
theorem missingOption?_eq (h : report.Genuine) :
    (report.setting.scope report.terminal).options.filterMap report.missingOption? =
      report.missingOptionViolations := by
  unfold missingOptionViolations
  rw [h.scope, ← Sequence.filterMap_ite]
  apply List.filterMap_congr
  intro option hoption
  have hmatched := isMatched_iff_of_option? (h.wellFormed.isSome_of_mem_scope_options hoption)
  unfold missingOption?
  simp [← hmatched, Bool.and_eq_true, and_assoc]

/-- The errors of a report are its violations. -/
theorem errors_eq (h : report.Genuine) : report.errors = report.violations := by
  have hbindings : report.bindingErrors = report.bindingViolations := by
    unfold bindingErrors bindingViolations
    congr 1
    · exact List.filterMap_congr fun found _ => bindingError?_eq ..
    · apply List.flatMap_congr
      intro found hfound
      unfold argumentErrors
      rw [h.missingArgument?_eq hfound]
      congr 1
      exact List.filterMap_congr fun binding _ => bindingError?_eq ..
  unfold errors violations omissionErrors
  rw [h.unrecognizedErrors_eq, hbindings, validationErrors_eq, h.missingOption?_eq,
    missingCommand?_eq]

end Genuine

end Report

namespace CommandTree

variable {tree : CommandTree β} {config : Config} {start : SymbolId}

/-- From a command of a reachable tree, with delimiters of one byte, every command line is parsed,
and the errors of the report are the violations of the command line, each once and in order. -/
theorem exists_errors_eq_violations (h : Reachable tree) (hstart : (tree.command? start).isSome)
    (hdelimiters : ∀ d ∈ config.inlineDelimiters, d.utf8Size = 1) (texts : List String) :
    ∃ report, tree.parse config start texts = .ok report ∧ report.Resolved ∧
      report.errors = report.violations := by
  have hgenuine := @WellFormed.genuine β tree config start h.wellFormed texts
  exact ⟨_, parse_eq_report (isSome_symbol?_of_command? hstart) hdelimiters texts,
    hgenuine.resolved hstart, hgenuine.errors_eq⟩

/-- Too many values of an option, a target that is no number, and a token too many. -/
theorem exists_errors_eq_violations_sample :
    ∃ report,
      sample.parse {} root ["-t", "a", "build", "--tag=b,c,d", "seven", "8"] = .ok report ∧
      report.Resolved ∧ report.errors = report.violations :=
  exists_errors_eq_violations reachable_sample (by decide) Config.utf8Size_eq_one _

example : (sample.report {} root ["-t", "a", "build", "--tag=b,c,d", "seven", "8"]).violations.map
    (·.kind) = [.unrecognizedToken, .arityViolation, .conversionFailure] := by decide +kernel

end CommandTree

end CommandLine
