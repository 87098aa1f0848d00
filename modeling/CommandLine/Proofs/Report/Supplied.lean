import CommandLine.Proofs.Report.Guarantees

/-!
# Defaults and what was given

A default stands in for a value that was not given, and so does false for a truth value. Raw values
that were given are converted instead, and there is no value if that fails. But their number is
looked at first: values in a number outside the arity are not converted, and the value is the one
that stands in, as if none of them had been there. That is an error, so in a report without errors
no value stands in for values that were given.
-/

namespace CommandLine

variable {β : Type}

/-- Whether a value stands in for one that was not given. -/
def Origin.isStandIn : Origin → Bool
  | .supplied _ _ => true
  | .unset => true
  | _ => false

namespace CommandTree

variable {tree : CommandTree β} {id argument : SymbolId}

/-- The argument that holds the values of an option or of an argument. -/
def valueHolder? (tree : CommandTree β) (id : SymbolId) : Option SymbolId :=
  match tree.option? id with
  | some node => some node.argument
  | none => (tree.argument? id).map fun _ => id

/-- The values of an option are held by its argument, and an argument holds its own. -/
theorem of_valueHolder?_eq_some (h : tree.valueHolder? id = some argument) :
    (∃ node, tree.option? id = some node ∧ node.argument = argument) ∨
      id = argument ∧ (tree.argument? id).isSome := by
  rw [valueHolder?] at h
  cases hoption : tree.option? id with
  | some node =>
    rw [hoption] at h
    exact Or.inl ⟨node, rfl, Option.some.inj h⟩
  | none =>
    rw [hoption] at h
    obtain ⟨node, hnode, rfl⟩ := Option.map_eq_some_iff.mp h
    exact Or.inr ⟨rfl, by rw [hnode]; rfl⟩

/-- In a well-formed tree what holds the values is an argument. -/
theorem WellFormed.isSome_argument?_of_valueHolder? (h : tree.WellFormed)
    (hholder : tree.valueHolder? id = some argument) : (tree.argument? argument).isSome := by
  rcases of_valueHolder?_eq_some hholder with ⟨node, hoption, rfl⟩ | ⟨rfl, hargument⟩
  · exact (h.of_option? hoption).1
  · exact hargument

end CommandTree

namespace Report

/-- How the value of an option or an argument depends on what the argument that holds its values
was given. -/
structure Sourced (report : Report β) (id argument : SymbolId) (node : ArgumentNode) : Prop where
  /-- Values in an accepted number are converted, and there is no value if that fails. -/
  given : ∀ binding ∈ report.bindings, binding.argument = argument → binding.values ≠ [] →
    node.arity.accepts binding.values.length = true →
      report.valueOf id = pure (node.type.convert binding.raws).toOption
  /-- Values in any other number are an error, and the value is the one that stands in. -/
  miscounted : ∀ binding ∈ report.bindings, binding.argument = argument →
    node.arity.accepts binding.values.length = false →
      report.errors ≠ [] ∧ report.valueOf id = (node.fallback argument).value
  /-- No values, where that is accepted, stand for an empty list or for a truth value. -/
  empty : ∀ binding ∈ report.bindings, binding.argument = argument → binding.values = [] →
    node.arity.accepts 0 = true →
      report.valueOf id =
        if node.type.isList then pure (some (.list []))
        else if node.type.isBool then pure (some (.bool true))
        else (node.fallback argument).value
  /-- Without a binding the value is the one that stands in. -/
  unbound : (∀ binding ∈ report.bindings, binding.argument ≠ argument) →
    report.valueOf id = (node.fallback argument).value
  /-- Nothing else makes a value stand in for values that were given. -/
  standIn : (report.origin id).isStandIn = true →
    ∀ binding ∈ report.bindings, binding.argument = argument → binding.values ≠ [] →
      node.arity.accepts binding.values.length = false

variable {report : Report β} {id argument : SymbolId} {binding : Binding} {node : ArgumentNode}

/-- The value of an option or an argument comes from where that of the argument does which holds
its values. -/
theorem origin_of_valueHolder? (h : report.tree.valueHolder? id = some argument) :
    report.origin id = report.argumentOrigin argument := by
  rw [origin]
  rcases CommandTree.of_valueHolder?_eq_some h with ⟨node, hoption, rfl⟩ | ⟨rfl, hargument⟩
  · rw [CommandTree.role?_of_option? hoption]
  · obtain ⟨node, hnode⟩ := Option.isSome_iff_exists.mp hargument
    rw [CommandTree.role?_of_argument? hnode]

/-- If nothing was given to that argument, the value is the one that stands in. -/
theorem origin_of_unbound (hholder : report.tree.valueHolder? id = some argument)
    (hnode : report.tree.argument? argument = some node)
    (hunbound : ∀ binding ∈ report.bindings, binding.argument ≠ argument) :
    report.origin id = node.fallback argument := by
  rw [origin_of_valueHolder? hholder]
  refine argumentOrigin_of_binding?_eq_none hnode (Option.eq_none_iff_forall_ne_some.mpr ?_)
  intro binding hfind
  obtain ⟨hbinding, hargument⟩ := of_binding?_eq_some hfind
  exact hunbound binding hbinding hargument

namespace Genuine

/-- What was given to the argument that holds the values of an option or an argument decides where
its value comes from. -/
theorem origin_of_mem (h : report.Genuine) (hbinding : binding ∈ report.bindings)
    (hholder : report.tree.valueHolder? id = some binding.argument)
    (hnode : report.tree.argument? binding.argument = some node) :
    report.origin id = node.originOf binding := by
  rw [origin_of_valueHolder? hholder, h.argumentOrigin_of_mem hbinding hnode]

/-- Values in a number outside the arity are an error. -/
theorem errors_ne_nil_of_mem (h : report.Genuine) (hbinding : binding ∈ report.bindings)
    (hnode : report.tree.argument? binding.argument = some node)
    (haccepts : node.arity.accepts binding.values.length = false) : report.errors ≠ [] := by
  intro herrors
  rw [h.errors_eq, violations_eq_nil_iff] at herrors
  have hcount := (of_mem_bindings herrors.2.1 hbinding hnode).1
  simp [haccepts] at hcount

/-- The value of an option or an argument is converted from what was given, or stands in. -/
theorem sourced (h : report.Genuine) (hholder : report.tree.valueHolder? id = some argument)
    (hnode : report.tree.argument? argument = some node) : report.Sourced id argument node := by
  refine ⟨?_, ?_, ?_, ?_, ?_⟩
  · rintro binding hbinding rfl hvalues haccepts
    rw [valueOf, h.origin_of_mem hbinding hholder hnode,
      ArgumentNode.originOf_of_accepts haccepts hvalues]
    cases (node.type.convert binding.raws).toOption <;> rfl
  · rintro binding hbinding rfl haccepts
    refine ⟨h.errors_ne_nil_of_mem hbinding hnode haccepts, ?_⟩
    rw [valueOf, h.origin_of_mem hbinding hholder hnode,
      ArgumentNode.originOf_of_not_accepts haccepts]
  · rintro binding hbinding rfl hvalues haccepts
    rw [valueOf, h.origin_of_mem hbinding hholder hnode,
      ArgumentNode.originOf_of_eq_nil haccepts hvalues]
    cases node.type.isList <;> cases node.type.isBool <;> rfl
  · intro hunbound
    rw [valueOf, origin_of_unbound hholder hnode hunbound]
  · rintro hstandIn binding hbinding rfl hvalues
    by_contra haccepts
    rw [h.origin_of_mem hbinding hholder hnode,
      ArgumentNode.originOf_of_accepts (by simpa using haccepts) hvalues] at hstandIn
    cases hconvert : (node.type.convert binding.raws).toOption <;>
      simp [hconvert, Origin.isStandIn] at hstandIn

end Genuine

end Report

namespace CommandTree

variable {tree : CommandTree β} {config : Config} {start id argument : SymbolId}
  {texts : List String} {report : Report β}

/-- In what is parsed from a command of a reachable tree, with delimiters of one byte, values that
were given to an option or an argument are converted, and otherwise there is no value: unless they
are in a number outside the arity, no value stands in for them. -/
theorem exists_sourced_of_valueHolder? (h : Reachable tree)
    (hstart : (tree.command? start).isSome)
    (hdelimiters : ∀ d ∈ config.inlineDelimiters, d.utf8Size = 1)
    (hparse : tree.parse config start texts = .ok report)
    (hholder : tree.valueHolder? id = some argument) :
    ∃ node, tree.argument? argument = some node ∧ report.Sourced id argument node := by
  rw [parse_eq_report (isSome_symbol?_of_command? hstart) hdelimiters] at hparse
  obtain rfl := Except.ok.inj hparse
  obtain ⟨node, hnode⟩ := Option.isSome_iff_exists.mp
    (h.wellFormed.isSome_argument?_of_valueHolder? hholder)
  exact ⟨node, hnode, (h.wellFormed.genuine texts).sourced hholder hnode⟩

/-- A program with an option that takes one number, 3 unless another one is given. -/
def leveled : CommandTree Unit :=
  (new { name := "app" }).editAll
    [.addOption root
      { aliases := ["--level"]
        argument := some { name := "level", type := .int, default := some fun _ => .int 3 } }
      false]

/-- Edits make the program out of a root command. -/
theorem reachable_leveled : Reachable leveled := (Reachable.new _).editAll _

/-- A number that is given once. -/
theorem exists_sourced_leveled :
    leveled.parse {} root ["--level", "7"] = .ok (leveled.report {} root ["--level", "7"]) ∧
      leveled.valueHolder? 1 = some 2 ∧
      ∃ node, leveled.argument? 2 = some node ∧
        (leveled.report {} root ["--level", "7"]).Sourced 1 2 node :=
  ⟨parse_eq_report (by decide) Config.utf8Size_eq_one _, by decide,
    exists_sourced_of_valueHolder? reachable_leveled (by decide) Config.utf8Size_eq_one
      (parse_eq_report (by decide) Config.utf8Size_eq_one _) (by decide)⟩

/-- Of two numbers none is taken: the default stands in for both. -/
theorem leveled_default_of_values :
    Reachable leveled ∧ ∃ report node,
      leveled.parse {} root ["--level", "1", "--level", "2"] = .ok report ∧
      leveled.valueHolder? 1 = some 2 ∧ leveled.argument? 2 = some node ∧
      (∃ binding ∈ report.bindings, binding.argument = 2 ∧ binding.raws = ["1", "2"]) ∧
      report.valueOf 1 ≠ pure (node.type.convert ["1", "2"]).toOption ∧
      report.valueOf 1 ≠ pure none ∧ (report.origin 1).isStandIn = true := by
  refine ⟨reachable_leveled, _, _, parse_eq_report (by decide) Config.utf8Size_eq_one _, by decide,
    rfl, by decide +kernel, ?_, ?_, by decide +kernel⟩
  all_goals
    apply ne_of_apply_ne fun value => (value.run []).1.bind Value.int?
    decide +kernel

end CommandTree

end CommandLine
