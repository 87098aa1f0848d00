import CommandLine.Proofs.Report.Violations
import CommandLine.Report.Origin

/-!
# What the absence of errors guarantees

An action that runs after a command line without errors finds what the tree promises. A positional
argument that needs a value has one, and so has a required option whose argument needs one. Raw
values that were given are in a number that is accepted, they were converted to the type that is
declared, and no validator rejects the result.

A value that was given is the value of its argument, whatever the default of the argument is.
-/

namespace CommandLine

variable {β : Type}

namespace ArgumentNode

variable {node : ArgumentNode} {binding : Binding}

/-- Where the value of an argument with a binding comes from. -/
def originOf (node : ArgumentNode) (binding : Binding) : Origin :=
  match node.settle binding.raws with
  | .converted result => result.toOption.elim .absent .given
  | _ => node.fallback binding.argument

/-- Values in a number outside the arity are not looked at. -/
theorem originOf_of_not_accepts (h : node.arity.accepts binding.values.length = false) :
    node.originOf binding = node.fallback binding.argument := by
  rw [← binding.length_raws] at h
  rw [originOf, settle_of_not_accepts h]
  by_cases hfew : binding.raws.length < node.arity.least
  · rw [if_pos hfew]
  · rw [if_neg hfew]

/-- Values in an accepted number are converted, and there is no value if that fails. -/
theorem originOf_of_accepts (h : node.arity.accepts binding.values.length = true)
    (hvalues : binding.values ≠ []) :
    node.originOf binding = (node.type.convert binding.raws).toOption.elim .absent .given := by
  rw [← binding.length_raws] at h
  rw [originOf, settle_of_ne_nil h (hvalues ∘ Binding.raws_eq_nil_iff.mp)]

/-- No values, where that is accepted, stand for a value only of a list or of a truth value. -/
theorem originOf_of_eq_nil (h : node.arity.accepts 0 = true) (hvalues : binding.values = []) :
    node.originOf binding =
      if node.type.isList then .given (.list [])
      else if node.type.isBool then .given (.bool true)
      else node.fallback binding.argument := by
  rw [originOf, Binding.raws_eq_nil_iff.mpr hvalues, settle_nil h]
  cases node.type.isList <;> cases node.type.isBool <;> rfl

end ArgumentNode

namespace Report

/-- An option or an argument that has a value, whatever defaults were evaluated before. -/
def HasValue (report : Report β) (id : SymbolId) : Prop :=
  ∀ evaluations, ((report.valueOf id).run evaluations).1.isSome

/-- The raw values of a binding give a symbol its value, as declared and with nothing against it. -/
structure Delivers (report : Report β) (id : SymbolId) (name : String)
    (validators : List Validator) (binding : Binding) (node : ArgumentNode) (value : Value) :
    Prop where
  declared : report.tree.argument? binding.argument = some node
  arity : node.arity.accepts binding.values.length = true
  convert : node.type.convert binding.raws = .ok value
  valueOf : report.valueOf id = pure (some value)
  isValue : node.type.IsValue binding.values.length value
  accepted : ∀ validator ∈ validators, validator ⟨id, name, binding.raws, value⟩ = none

/-- What an action may rely on. -/
structure Guarantees (report : Report β) : Prop where
  positional : ∀ found ∈ report.path, ∀ argument ∈ report.tree.arguments found.command, ∀ node,
    report.tree.argument? argument = some node → 1 ≤ node.arity.least → report.HasValue argument
  required : ∀ option ∈ (report.tree.scope report.terminal).options,
    report.tree.isRequired option = true → ∀ node, report.tree.slot? option = some node →
      1 ≤ node.arity.least → report.HasValue option
  option : ∀ found ∈ report.options, found.binding.values ≠ [] → ∃ node value,
    report.Delivers found.option (report.tree.displayName found.option)
      (report.optionValidators found) found.binding node value
  argument : ∀ found ∈ report.path, ∀ binding ∈ found.arguments, binding.values ≠ [] →
    ∃ node value, report.Delivers binding.argument (report.tree.name binding.argument)
      (report.argumentValidators binding) binding node value

variable {report : Report β} {binding : Binding} {node : ArgumentNode} {value : Value}

/-! ## Nothing is violated -/

/-- No violation means none of any sort. -/
theorem violations_eq_nil_iff : report.violations = [] ↔
    report.unrecognizedViolations = [] ∧ report.bindingViolations = [] ∧
      report.rejectionViolations = [] ∧ report.missingOptionViolations = [] ∧
      report.missingCommandViolations = [] := by
  simp only [violations, List.append_eq_nil_iff, and_assoc]

/-- Values that nothing is wrong with are in an accepted number, and can be converted if there. -/
theorem of_bindingViolation?_eq_none {owner : Owner} {position : Option ℕ}
    (h : report.bindingViolation? owner position binding = none)
    (hnode : report.tree.argument? binding.argument = some node) :
    node.arity.accepts binding.values.length = true ∧
      (binding.values = [] ∨ ∃ value, node.type.convert binding.raws = .ok value) := by
  simp only [bindingViolation?, hnode, Option.bind_some] at h
  split at h
  · refine ⟨‹_›, ?_⟩
    split at h
    · exact Or.inl ‹_›
    · cases hconvert : node.type.convert binding.raws with
      | ok value => exact Or.inr ⟨value, rfl⟩
      | error error => simp [hconvert] at h
  · simp at h

/-- Bindings without violations are accepted, and converted if they have values. -/
theorem of_mem_bindings (h : report.bindingViolations = []) (hbinding : binding ∈ report.bindings)
    (hnode : report.tree.argument? binding.argument = some node) :
    node.arity.accepts binding.values.length = true ∧
      (binding.values = [] ∨ ∃ value, node.type.convert binding.raws = .ok value) := by
  simp only [bindingViolations, List.append_eq_nil_iff, List.filterMap_eq_nil_iff,
    List.flatMap_eq_nil_iff] at h
  rcases List.mem_append.mp hbinding with hpositional | hoption
  · obtain ⟨found, hfound, hargument⟩ := List.mem_flatMap.mp hpositional
    exact of_bindingViolation?_eq_none ((h.2 found hfound).1 binding hargument) hnode
  · obtain ⟨found, hfound, rfl⟩ := List.mem_map.mp hoption
    exact of_bindingViolation?_eq_none (h.1 found hfound) hnode

/-- Where nothing is missing, an unbound positional argument that needs a value has a default. -/
theorem isSome_default_of_unbound (h : report.bindingViolations = []) {found : CommandMatch}
    (hfound : found ∈ report.path) {argument : SymbolId}
    (hargument : argument ∈ report.tree.arguments found.command)
    (hnode : report.tree.argument? argument = some node) (hleast : 1 ≤ node.arity.least)
    (hnone : report.binding? argument = none) : node.default.isSome := by
  simp only [bindingViolations, List.append_eq_nil_iff, List.flatMap_eq_nil_iff] at h
  have hunbound := (h.2 found hfound).2
  simp only [unboundViolations, List.map_eq_nil_iff, List.filter_eq_nil_iff] at hunbound
  have hdefault := hunbound argument hargument
  have hpositive : 0 < node.arity.least := hleast
  cases hsupplier : node.default with
  | some supplier => rfl
  | none => simp [hnone, hnode, hpositive, hsupplier] at hdefault

/-- Where nothing is missing, a required option that was not matched has a default. -/
theorem isSome_default_of_unmatched (h : report.missingOptionViolations = []) {option : SymbolId}
    (hvisible : option ∈ (report.tree.scope report.terminal).options)
    (hoption : (report.tree.option? option).isSome)
    (hrequired : report.tree.isRequired option = true)
    (hnode : report.tree.slot? option = some node) (hunmatched : option ∉ report.optionIds) :
    node.default.isSome := by
  simp only [missingOptionViolations, List.map_eq_nil_iff, List.filter_eq_nil_iff] at h
  have hdefault := h option hvisible
  rw [← isMatched_iff_of_option? hoption] at hunmatched
  cases hsupplier : node.default with
  | some supplier => rfl
  | none => simp [hrequired, hunmatched, hnode, hsupplier] at hdefault

/-- Without rejections the validators of a matched option accept its value. -/
theorem accepted_option (h : report.rejectionViolations = []) {found : OptionMatch}
    (hfound : found ∈ report.options)
    (hvalue : report.convertedValue? found.binding = some value) :
    ∀ validator ∈ report.optionValidators found,
      validator ⟨found.option, report.tree.displayName found.option, found.binding.raws, value⟩ =
        none := by
  simp only [rejectionViolations, List.append_eq_nil_iff, List.flatMap_eq_nil_iff] at h
  have hnone := h.1 found hfound
  rw [hvalue, Option.elim_some, List.filterMap_eq_nil_iff] at hnone
  intro validator hvalidator
  exact Option.map_eq_none_iff.mp (hnone validator hvalidator)

/-- Without rejections the validators of a positional argument accept its value. -/
theorem accepted_argument (h : report.rejectionViolations = [])
    (hbinding : binding ∈ report.path.flatMap (·.arguments))
    (hvalue : report.convertedValue? binding = some value) :
    ∀ validator ∈ report.argumentValidators binding,
      validator ⟨binding.argument, report.tree.name binding.argument, binding.raws, value⟩ =
        none := by
  simp only [rejectionViolations, List.append_eq_nil_iff, List.flatMap_eq_nil_iff] at h
  have hnone := h.2 binding hbinding
  rw [hvalue, Option.elim_some, List.filterMap_eq_nil_iff] at hnone
  intro validator hvalidator
  exact Option.map_eq_none_iff.mp (hnone validator hvalidator)

/-! ## Where values come from -/

/-- An option has the value of its argument. -/
theorem valueOf_option {option : SymbolId} {optionNode : OptionNode β}
    (hnode : report.tree.option? option = some optionNode) :
    report.valueOf option = (report.argumentOrigin optionNode.argument).value := by
  simp only [valueOf, origin, CommandTree.role?_of_option? hnode]

/-- An argument has the value of its origin. -/
theorem valueOf_argument {argument : SymbolId}
    (hnode : report.tree.argument? argument = some node) :
    report.valueOf argument = (report.argumentOrigin argument).value := by
  simp only [valueOf, origin, CommandTree.role?_of_argument? hnode]

/-- A default supplies a value. -/
theorem isSome_value_fallback (hdefault : node.default.isSome) (argument : SymbolId)
    (evaluations : Evaluations) :
    (((node.fallback argument).value).run evaluations).1.isSome := by
  obtain ⟨supplier, hsupplier⟩ := Option.isSome_iff_exists.mp hdefault
  simp only [ArgumentNode.fallback, hsupplier]
  rfl

/-- An argument without a binding has the value that stands for its absence. -/
theorem argumentOrigin_of_binding?_eq_none {argument : SymbolId}
    (hnode : report.tree.argument? argument = some node)
    (hnone : report.binding? argument = none) :
    report.argumentOrigin argument = node.fallback argument := by
  simp only [argumentOrigin, hnode, hnone, Option.map_none]

namespace Genuine

/-- The value of an argument with a binding comes from that binding. -/
theorem argumentOrigin_of_mem (h : report.Genuine) (hbinding : binding ∈ report.bindings)
    (hnode : report.tree.argument? binding.argument = some node) :
    report.argumentOrigin binding.argument = node.originOf binding := by
  simp only [argumentOrigin, hnode, h.binding?_of_mem hbinding, Option.map_some]
  rw [ArgumentNode.originOf]
  rcases node.settle binding.raws with _ | _ | _ | (_ | _) <;> rfl

/-- An argument with values has the value that they are converted to. -/
theorem argumentOrigin_of_convert (h : report.Genuine) (hbinding : binding ∈ report.bindings)
    (hnode : report.tree.argument? binding.argument = some node)
    (haccepts : node.arity.accepts binding.values.length = true) (hvalues : binding.values ≠ [])
    (hconvert : node.type.convert binding.raws = .ok value) :
    report.argumentOrigin binding.argument = .given value := by
  rw [h.argumentOrigin_of_mem hbinding hnode, ArgumentNode.originOf_of_accepts haccepts hvalues,
    hconvert]
  rfl

/-- Values that violate nothing become the value of their argument. -/
theorem exists_given (h : report.Genuine) (hbindings : report.bindingViolations = [])
    (hbinding : binding ∈ report.bindings) (hvalues : binding.values ≠ []) :
    ∃ node value, report.tree.argument? binding.argument = some node ∧
      node.arity.accepts binding.values.length = true ∧
      node.type.convert binding.raws = .ok value ∧
      node.type.IsValue binding.values.length value ∧
      report.argumentOrigin binding.argument = .given value ∧
      report.convertedValue? binding = some value := by
  obtain ⟨node, hnode⟩ := Option.isSome_iff_exists.mp (h.isSome_argument? hbinding)
  obtain ⟨haccepts, hconverted⟩ := of_mem_bindings hbindings hbinding hnode
  obtain ⟨value, hconvert⟩ := hconverted.resolve_left hvalues
  have hvalue := ValueType.isValue_of_convert hconvert
  rw [binding.length_raws] at hvalue
  refine ⟨node, value, hnode, haccepts, hconvert, hvalue,
    h.argumentOrigin_of_convert hbinding hnode haccepts hvalues hconvert, ?_⟩
  simp [convertedValue?, hnode, haccepts, hconvert, Except.toOption]

/-- An argument that needs a value has one, if it has a default where it is not bound. -/
theorem isSome_of_least (h : report.Genuine) (hbindings : report.bindingViolations = [])
    {argument : SymbolId} (hnode : report.tree.argument? argument = some node)
    (hleast : 1 ≤ node.arity.least)
    (hdefault : report.binding? argument = none → node.default.isSome)
    (evaluations : Evaluations) :
    (((report.argumentOrigin argument).value).run evaluations).1.isSome := by
  cases hfind : report.binding? argument with
  | none =>
    rw [argumentOrigin_of_binding?_eq_none hnode hfind]
    exact isSome_value_fallback (hdefault hfind) argument evaluations
  | some binding =>
    obtain ⟨hbinding, rfl⟩ := of_binding?_eq_some hfind
    have haccepts := (of_mem_bindings hbindings hbinding hnode).1
    -- The binding is in an accepted number, so an argument that needs a value is not bound to none.
    have hvalues : binding.values ≠ [] := by
      intro hnil
      rw [hnil, Arity.accepts_iff, List.length_nil] at haccepts
      omega
    obtain ⟨_, value, -, -, -, -, hgiven, -⟩ := h.exists_given hbindings hbinding hvalues
    rw [hgiven]
    rfl

/-- A report without errors can be relied on. -/
theorem guarantees (h : report.Genuine) (herrors : report.errors = []) : report.Guarantees := by
  rw [h.errors_eq, violations_eq_nil_iff] at herrors
  obtain ⟨-, hbindings, hrejections, hmissing, -⟩ := herrors
  refine ⟨?_, ?_, ?_, ?_⟩
  · intro found hfound argument hargument node hnode hleast evaluations
    rw [valueOf_argument hnode]
    exact h.isSome_of_least hbindings hnode hleast
      (isSome_default_of_unbound hbindings hfound hargument hnode hleast) evaluations
  · intro option hoption hrequired node hslot hleast evaluations
    have hsome := h.wellFormed.isSome_of_mem_scope_options hoption
    obtain ⟨optionNode, hoptionNode⟩ := Option.isSome_iff_exists.mp hsome
    have hnode : report.tree.argument? optionNode.argument = some node := by
      simpa [CommandTree.slot?, hoptionNode] using hslot
    rw [valueOf_option hoptionNode]
    apply h.isSome_of_least hbindings hnode hleast
    intro hnone
    apply isSome_default_of_unmatched hmissing hoption hsome hrequired hslot
    intro hmatched
    have hbinding := h.binding?_slotId hmatched
    rw [slotId_of_option? hoptionNode, hnone] at hbinding
    simp at hbinding
  · intro found hfound hvalues
    have hbinding : found.binding ∈ report.bindings :=
      List.mem_append_right _ (List.mem_map_of_mem hfound)
    obtain ⟨node, value, hnode, haccepts, hconvert, hvalue, hgiven, hconverted⟩ :=
      h.exists_given hbindings hbinding hvalues
    refine ⟨node, value, hnode, haccepts, hconvert, ?_, hvalue,
      accepted_option hrejections hfound hconverted⟩
    obtain ⟨option, hoption, rfl⟩ := List.mem_map.mp hfound
    obtain ⟨optionNode, hoptionNode⟩ := h.exists_option? hoption
    have hslot : (report.optionMatch option).binding.argument = optionNode.argument :=
      slotId_of_option? hoptionNode
    have hvalueOf : report.valueOf option = pure (some value) := by
      rw [valueOf_option hoptionNode, ← hslot, hgiven]
      rfl
    exact hvalueOf
  · intro found hfound binding hargument hvalues
    have hpositional : binding ∈ report.path.flatMap (·.arguments) :=
      List.mem_flatMap.mpr ⟨found, hfound, hargument⟩
    have hbinding : binding ∈ report.bindings := List.mem_append_left _ hpositional
    obtain ⟨node, value, hnode, haccepts, hconvert, hvalue, hgiven, hconverted⟩ :=
      h.exists_given hbindings hbinding hvalues
    refine ⟨node, value, hnode, haccepts, hconvert, ?_, hvalue,
      accepted_argument hrejections hpositional hconverted⟩
    rw [valueOf_argument hnode, hgiven]
    rfl

end Genuine

end Report

namespace CommandTree

variable {tree : CommandTree β} {config : Config} {start : SymbolId} {texts : List String}
  {report : Report β}

/-- After a command line without errors, parsed from a command of a reachable tree with delimiters
of one byte, an action can rely on what the tree promises about options and arguments. -/
theorem guarantees_of_errors_eq_nil (h : Reachable tree) (hstart : (tree.command? start).isSome)
    (hdelimiters : ∀ d ∈ config.inlineDelimiters, d.utf8Size = 1)
    (hparse : tree.parse config start texts = .ok report) (herrors : report.errors = []) :
    report.Resolved ∧ report.Guarantees := by
  rw [parse_eq_report (isSome_symbol?_of_command? hstart) hdelimiters] at hparse
  obtain rfl := Except.ok.inj hparse
  have hgenuine := @WellFormed.genuine β tree config start h.wellFormed texts
  exact ⟨hgenuine.resolved hstart, hgenuine.guarantees herrors⟩

/-- A required option with several values, and a number after the subcommand. -/
theorem guarantees_sample :
    (sample.report {} root ["--tag=a,b", "build", "7"]).errors = [] ∧
      (sample.report {} root ["--tag=a,b", "build", "7"]).Resolved ∧
      (sample.report {} root ["--tag=a,b", "build", "7"]).Guarantees :=
  ⟨by decide +kernel,
    guarantees_of_errors_eq_nil reachable_sample (by decide) Config.utf8Size_eq_one
      (parse_eq_report (by decide) Config.utf8Size_eq_one _) (by decide +kernel)⟩

end CommandTree

end CommandLine
