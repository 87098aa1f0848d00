import CommandLine.Proofs.Report.Accounting
import CommandLine.Proofs.Report.Continuation
import CommandLine.Proofs.Report.Violations

/-!
# Where a conversion fails

A conversion that fails has a culprit: the first value of the argument that its type does not
accept. One error of the report says so, and it is placed at the token that holds this value.

The place is not kept by the conversion, which sees texts only. It is found again by looking for the
first value with the text of the culprit, and no value in front of the culprit has this text, since
those are accepted.
-/

namespace CommandLine

variable {β : Type}

/-- Of made members of which only those with one key have a property, the one with this key is left. -/
theorem Sequence.filter_filterMap_eq_singleton {A B K : Type} {values : List A} {key : A → K}
    (hkeys : (values.map key).Nodup) {make : A → Option B} {p : B → Bool} {value : A} {member : B}
    (hvalue : value ∈ values) (hmake : make value = some member) (hmember : p member = true)
    (hothers : ∀ other ∈ values, ∀ made, make other = some made → p made = true →
      key other = key value) :
    (values.filterMap make).filter p = [member] := by
  obtain ⟨before, after, rfl⟩ := List.append_of_mem hvalue
  rw [List.map_append, List.map_cons, List.nodup_middle, List.nodup_cons, List.mem_append,
    not_or] at hkeys
  have hnone : ∀ others : List A, (∀ other ∈ others, other ∈ before ++ value :: after) →
      key value ∉ others.map key → (others.filterMap make).filter p = [] := by
    intro others hsub hkey
    rw [List.filter_eq_nil_iff]
    intro made hmade hp
    obtain ⟨other, hother, hmade⟩ := List.mem_filterMap.mp hmade
    exact hkey (List.mem_map.mpr ⟨other, hother, hothers other (hsub other hother) made hmade hp⟩)
  rw [List.filterMap_append, List.filterMap_cons_some hmake, List.filter_append,
    List.filter_cons_of_pos hmember, hnone before (fun other => List.mem_append_left _) hkeys.1.1,
    hnone after (fun other hother => List.mem_append_right _ (List.mem_cons_of_mem _ hother))
      hkeys.1.2]
  rfl

/-- Values that are converted with an error have a first text that their type does not accept. -/
theorem ArgumentNode.exists_refuses {node : ArgumentNode} {raws : List String}
    {error : ConversionError} (h : node.settle raws = .converted (.error error)) :
    ∃ before raw after, node.type.Refuses raws before raw after ∧
      error = .invalid raw node.type.name := by
  cases haccepts : node.arity.accepts raws.length with
  | false =>
    rw [settle_of_not_accepts haccepts] at h
    split at h <;> cases h
  | true =>
    by_cases hraws : raws = []
    · -- Without values nothing is converted but to an empty list or a truth value.
      subst hraws
      rw [settle_nil haccepts] at h
      split at h
      · cases h
      · split at h <;> cases h
    · rw [settle_of_ne_nil haccepts hraws] at h
      exact ValueType.exists_refuses_of_convert hraws (Settlement.converted.inj h)

/-- The first value that a type does not accept is the first one with its text. -/
theorem Binding.positionOf?_of_refused {type : ValueType} {binding : Binding}
    {before after : List Bound} {culprit : Bound} (hvalues : binding.values = before ++ culprit :: after)
    (haccepted : ∀ value ∈ before, (type.readScalar value.text).isSome)
    (hrefused : type.readScalar culprit.text = none) :
    binding.positionOf? culprit.text = some culprit.position := by
  have hnone : before.find? (·.text = culprit.text) = none := by
    rw [List.find?_eq_none]
    intro value hvalue hsame
    have haccepts := haccepted value hvalue
    rw [of_decide_eq_true hsame, hrefused] at haccepts
    cases haccepts
  rw [positionOf?, hvalues, List.find?_append, hnone, Option.none_or,
    List.find?_cons_of_pos (by simp)]
  rfl

/-- A binding with whose argument it is, and where its errors stand that are about no value. -/
structure OwnedBinding where
  owner : Owner
  position : Option ℕ
  binding : Binding

namespace Report

/-- The bindings in the order in which their errors are found, options first. -/
def ownedBindings (report : Report β) : List OwnedBinding :=
  report.options.map (fun found => ⟨.option (report.tree.displayName found.option),
      found.tokens.head?.map (·.position), found.binding⟩) ++
    report.path.flatMap fun found => found.arguments.map fun binding =>
      ⟨.command (report.tree.name found.command), found.token.map (·.position), binding⟩

/-- What is wrong with an owned binding. -/
def ownedError? (report : Report β) (owned : OwnedBinding) : Option ParseError :=
  report.bindingError? owned.owner owned.position owned.binding

/-- The errors about the conversion of an argument's values. -/
def conversionFailures (report : Report β) (argument : SymbolId) : List ParseError :=
  report.errors.filter fun error =>
    error.kind = .conversionFailure ∧ error.symbol = some argument

/-- A value of a binding that the type of its argument does not accept, and the error about it. -/
structure Blames (report : Report β) (binding : Binding) (node : ArgumentNode) (culprit : Bound) :
    Prop where
  declared : report.tree.argument? binding.argument = some node
  /-- The culprit is the first of the values that the type does not accept. -/
  first : ∃ before after, binding.values = before ++ culprit :: after ∧
    ∀ value ∈ before, (node.type.readScalar value.text).isSome
  refused : node.type.readScalar culprit.text = none
  /-- One error is about the conversion, and it stands where the culprit does. -/
  error : ∃ owner, report.conversionFailures binding.argument =
    [⟨.unconvertible owner culprit.text node.type.name, some culprit.position,
      some binding.argument⟩]
  /-- The culprit is a token of its own, or it is a part of a token that names its option. -/
  token : (∃ token ∈ report.tokens, token.kind = .argument ∧ culprit = ⟨token.text, token.position⟩) ∨
    ∃ found ∈ report.options, found.binding = binding ∧
      ∃ token ∈ found.tokens, token.kind = .option ∧ token.position = culprit.position ∧
        Inline.IsPart report.config.inlineDelimiters token.text culprit.text

variable {report : Report β} {binding : Binding} {node : ArgumentNode} {culprit : Bound}

/-- The owned bindings are the bindings, in another order. -/
theorem binding_ownedBindings_perm (report : Report β) :
    (report.ownedBindings.map (·.binding)).Perm report.bindings := by
  have hpath : (report.path.flatMap fun found => found.arguments.map fun binding =>
      (⟨.command (report.tree.name found.command), found.token.map (·.position), binding⟩ :
        OwnedBinding)).map (·.binding) = report.path.flatMap (·.arguments) := by
    rw [List.map_flatMap]
    apply List.flatMap_congr
    intro found _
    rw [List.map_map]
    exact List.map_id' _
  rw [ownedBindings, List.map_append, hpath, List.map_map, bindings]
  exact List.perm_append_comm

/-- What is wrong with the owned bindings, first those of options, then along the path. -/
theorem filterMap_ownedBindings (report : Report β) :
    report.ownedBindings.filterMap report.ownedError? =
      report.options.filterMap report.optionBindingError? ++
        report.path.flatMap fun found => found.arguments.filterMap
          (report.bindingError? (.command (report.tree.name found.command))
            (found.token.map (·.position))) := by
  rw [ownedBindings, List.filterMap_append, List.filterMap_map, List.filterMap_flatMap]
  congr 1
  apply List.flatMap_congr
  intro found _
  rw [List.filterMap_map]
  rfl

/-- The errors about conversions are among those of the owned bindings. -/
theorem conversionFailures_eq (report : Report β) (argument : SymbolId) :
    report.conversionFailures argument =
      (report.ownedBindings.filterMap report.ownedError?).filter fun error =>
        error.kind = .conversionFailure ∧ error.symbol = some argument := by
  have hnone : ∀ errors : List ParseError, (∀ error ∈ errors, error.kind ≠ .conversionFailure) →
      (errors.filter fun error => error.kind = .conversionFailure ∧ error.symbol = some argument) =
        [] := by
    intro errors herrors
    rw [List.filter_eq_nil_iff]
    intro error hmem hfailure
    exact herrors error hmem (of_decide_eq_true hfailure).1
  have hunrecognized : ∀ error ∈ report.unrecognizedErrors, error.kind ≠ .conversionFailure := by
    intro error herror
    simp [kind_of_mem_unrecognizedErrors herror]
  have hvalidation : ∀ error ∈ report.validationErrors, error.kind ≠ .conversionFailure := by
    intro error herror
    simp [kind_of_mem_validationErrors herror]
  have homission : ∀ error ∈ report.omissionErrors, error.kind ≠ .conversionFailure := by
    intro error herror
    rcases kind_of_mem_omissionErrors herror with hkind | hkind <;> simp [hkind]
  have hmissing : ∀ found, ∀ error ∈ (report.tree.arguments found.command).filterMap
      (report.missingArgument? found), error.kind ≠ .conversionFailure := by
    intro found error herror
    obtain ⟨missing, -, herror⟩ := List.mem_filterMap.mp herror
    simp [kind_of_missingArgument? herror]
  rw [conversionFailures, errors, List.filter_append, List.filter_append, List.filter_append,
    hnone _ hunrecognized, hnone _ hvalidation, hnone _ homission, List.nil_append, List.append_nil,
    List.append_nil, bindingErrors, filterMap_ownedBindings, List.filter_append, List.filter_append,
    List.filter_flatMap, List.filter_flatMap]
  congr 1
  apply List.flatMap_congr
  intro found _
  rw [argumentErrors, List.filter_append, hnone _ (hmissing found), List.append_nil]

/-- The error about a conversion that fails is placed at the culprit. -/
theorem bindingError?_of_refused (hnode : report.tree.argument? binding.argument = some node)
    {before after : List Bound} (hvalues : binding.values = before ++ culprit :: after)
    (haccepted : ∀ value ∈ before, (node.type.readScalar value.text).isSome)
    (hrefused : node.type.readScalar culprit.text = none)
    (hsettle : node.settle binding.raws =
      .converted (.error (.invalid culprit.text node.type.name)))
    (owner : Owner) (position : Option ℕ) :
    report.bindingError? owner position binding =
      some ⟨.unconvertible owner culprit.text node.type.name, some culprit.position,
        some binding.argument⟩ := by
  have hposition := Binding.positionOf?_of_refused hvalues haccepted hrefused
  simp only [bindingError?, hnode, hsettle, ConversionError.raw?, Option.getD_some, hposition,
    Option.some_or, ConversionError.typeName]

/-- An error about a conversion is about the argument of its binding. -/
theorem symbol_of_bindingError? {owner : Owner} {position : Option ℕ} {error : ParseError}
    (h : report.bindingError? owner position binding = some error) :
    error.symbol = some binding.argument := by
  unfold bindingError? at h
  split at h
  · cases h
  · split at h <;> cases h <;> rfl

namespace Genuine

/-- One error is about a conversion that fails, whosever the argument is. -/
theorem conversionFailures_of_mem (h : report.Genuine) (hbinding : binding ∈ report.bindings)
    {problem : Owner → Problem} {place : ℕ}
    (hkind : ∀ owner, (problem owner).kind = .conversionFailure)
    (herror : ∀ owner position, report.bindingError? owner position binding =
      some ⟨problem owner, some place, some binding.argument⟩) :
    ∃ owner, report.conversionFailures binding.argument =
      [⟨problem owner, some place, some binding.argument⟩] := by
  have hperm := report.binding_ownedBindings_perm
  obtain ⟨owned, howned, rfl⟩ := List.mem_map.mp (hperm.mem_iff.mpr hbinding)
  have hkeys : (report.ownedBindings.map fun owned => owned.binding.argument).Nodup := by
    have hnodup := h.nodup_bindings
    rw [← (hperm.map (·.argument)).nodup_iff, List.map_map] at hnodup
    exact hnodup
  refine ⟨owned.owner, ?_⟩
  rw [conversionFailures_eq]
  refine Sequence.filter_filterMap_eq_singleton hkeys howned (herror _ _) ?_ ?_
  · exact decide_eq_true ⟨hkind owned.owner, rfl⟩
  · intro other _ made hmade hp
    have hsymbol := symbol_of_bindingError? hmade
    rw [(of_decide_eq_true hp).2] at hsymbol
    exact (Option.some.inj hsymbol).symm

/-- A conversion that fails has a culprit, and the error names it. -/
theorem exists_blames (h : report.Genuine) (hbinding : binding ∈ report.bindings)
    {error : ConversionError} (hsettle : report.settle binding = .converted (.error error)) :
    ∃ node culprit, report.Blames binding node culprit ∧
      error = .invalid culprit.text node.type.name := by
  obtain ⟨node, hnode⟩ := Option.isSome_iff_exists.mp (h.isSome_argument? hbinding)
  rw [settle, hnode, Option.elim_some] at hsettle
  obtain ⟨before, raw, after, ⟨hraws, haccepted, hrefused⟩, rfl⟩ :=
    ArgumentNode.exists_refuses hsettle
  -- The texts are those of the values, so the first one that is refused belongs to a value.
  obtain ⟨earlier, rest, hvalues, rfl, hrest⟩ := List.map_eq_append_iff.mp hraws
  obtain ⟨culprit, later, rfl, rfl, rfl⟩ := List.map_eq_cons_iff.mp hrest
  rw [List.forall_mem_map] at haccepted
  have herror := bindingError?_of_refused hnode hvalues haccepted hrefused hsettle
  refine ⟨node, culprit, ⟨hnode, ⟨earlier, later, hvalues, haccepted⟩, hrefused, ?_, ?_⟩, rfl⟩
  · exact h.conversionFailures_of_mem hbinding (fun _ => rfl) herror
  · exact h.value_cases hbinding (by rw [hvalues]; simp)

end Genuine

end Report

namespace CommandTree

variable {tree : CommandTree β} {config : Config} {start : SymbolId}

/-- From any symbol of a reachable tree, with delimiters of one byte, every command line is parsed,
and whenever the conversion of an argument's values fails, it fails with the first value that the
type of the argument does not accept, and one error of the report is about it, placed at this
value. -/
theorem exists_culprits (h : Reachable tree) (hstart : (tree.symbol? start).isSome)
    (hdelimiters : ∀ d ∈ config.inlineDelimiters, d.utf8Size = 1) (texts : List String) :
    ∃ report, tree.parse config start texts = .ok report ∧
      ∀ binding ∈ report.bindings, ∀ error,
        report.settle binding = .converted (.error error) → ∃ node culprit,
          report.Blames binding node culprit ∧ error = .invalid culprit.text node.type.name :=
  ⟨_, parse_eq_report hstart hdelimiters texts, fun _ hbinding _ hsettle =>
    (h.wellFormed.genuine texts).exists_blames hbinding hsettle⟩

/-- A program with one option for up to four colours: `app --colour <colour>...`. -/
def coloured : CommandTree Unit :=
  (new { name := "app" }).editAll
    [.addOption root
      { aliases := ["--colour"]
        argument := some
          { name := "colour", type := .choice ["red", "blue"], arity := some ⟨1, 4⟩ } }
      false]

/-- Two values that are no colours, both alike and one of them in the token of its option. -/
theorem exists_culprits_coloured :
    ∃ report, coloured.parse {} root
        ["--colour", "red", "--colour=pink,blue", "--colour", "pink"] = .ok report ∧
      ∀ binding ∈ report.bindings, ∀ error,
        report.settle binding = .converted (.error error) → ∃ node culprit,
          report.Blames binding node culprit ∧ error = .invalid culprit.text node.type.name :=
  exists_culprits ((Reachable.new _).editAll _) (by decide) Config.utf8Size_eq_one _

example :
    (coloured.report {} root
        ["--colour", "red", "--colour=pink,blue", "--colour", "pink"]).errors =
      [⟨.unconvertible (.option "--colour") "pink" "one of [red, blue]", some 2, some 2⟩] := by
  decide +kernel

end CommandTree

end CommandLine
