import CommandLine.Proofs.Report.Bindings

/-!
# The symbols of a report

A report refers to symbols of its tree only, each of the kind that its place asks for: commands on
the path, options among the matched and the visible ones, arguments behind bindings and options.
So a question about one of them is never answered by default.
-/

namespace CommandLine

variable {β : Type}

namespace CommandTree

variable {tree : CommandTree β} {id : SymbolId}

/-- The role of an option. -/
theorem role?_of_option? {node : OptionNode β} (h : tree.option? id = some node) :
    tree.role? id = some (.option node) := by
  unfold option? at h
  unfold role?
  cases hsymbol : tree.symbol? id with
  | none => simp [hsymbol] at h
  | some symbol => cases hrole : symbol.role <;> simp_all [Symbol.option?]

/-- The role of an argument. -/
theorem role?_of_argument? {node : ArgumentNode} (h : tree.argument? id = some node) :
    tree.role? id = some (.argument node) := by
  unfold argument? at h
  unfold role?
  cases hsymbol : tree.symbol? id with
  | none => simp [hsymbol] at h
  | some symbol => cases hrole : symbol.role <;> simp_all [Symbol.argument?]

end CommandTree

namespace Report

/-- A report whose symbols are all found in its tree, under the kinds that it takes them for. -/
structure Resolved (report : Report β) : Prop where
  command : ∀ found ∈ report.path, (report.tree.command? found.command).isSome
  option : ∀ found ∈ report.options, (report.tree.option? found.option).isSome
  binding : ∀ binding ∈ report.bindings, (report.tree.argument? binding.argument).isSome
  argument : ∀ found ∈ report.path, ∀ argument ∈ report.tree.arguments found.command,
    (report.tree.argument? argument).isSome
  visible : ∀ option ∈ (report.tree.scope report.terminal).options,
    (report.tree.slot? option).isSome

variable {report : Report β} {found : CommandMatch} {option argument : SymbolId} {binding : Binding}

/-- An option is found in a report if it was matched. -/
theorem isSome_option?_iff : (report.option? option).isSome ↔ option ∈ report.optionIds := by
  unfold option? options
  rw [List.find?_isSome]
  constructor
  · rintro ⟨found, hfound, hoption⟩
    obtain ⟨other, hother, rfl⟩ := List.mem_map.mp hfound
    obtain rfl : other = option := of_decide_eq_true hoption
    exact hother
  · intro hoption
    exact ⟨_, List.mem_map_of_mem hoption, by simp [optionMatch]⟩

/-- What is found for a matched option is its match. -/
theorem option?_eq (report : Report β) (option : SymbolId) : report.option? option =
    if option ∈ report.optionIds then some (report.optionMatch option) else none := by
  by_cases hmem : option ∈ report.optionIds
  · obtain ⟨found, hfound⟩ := Option.isSome_iff_exists.mp (isSome_option?_iff.mpr hmem)
    have hoption : found.option = option := by simpa using List.find?_some hfound
    obtain ⟨other, -, rfl⟩ := List.mem_map.mp (List.mem_of_find?_eq_some hfound)
    obtain rfl : other = option := hoption
    rw [hfound, if_pos hmem]
  · rw [if_neg hmem, ← Option.not_isSome_iff_eq_none, isSome_option?_iff]
    exact hmem

/-- An option of the tree took part in a command line if it was matched. -/
theorem isMatched_iff_of_option? (hoption : (report.tree.option? option).isSome) :
    report.isMatched option = true ↔ option ∈ report.optionIds := by
  obtain ⟨node, hnode⟩ := Option.isSome_iff_exists.mp hoption
  rw [← isSome_option?_iff]
  unfold isMatched
  rw [CommandTree.role?_of_option? hnode]

namespace Genuine

/-- The commands on the path are commands if the first one is. -/
theorem isSome_command?_of_mem_path (h : report.Genuine)
    (hstart : (report.tree.command? report.start).isSome) {command : SymbolId}
    (hcommand : command ∈ Reading.path report.start report.readings) :
    (report.tree.command? command).isSome := by
  rcases List.mem_cons.mp hcommand with rfl | hcommand
  · exact hstart
  · obtain ⟨reading, hmem, hdescent⟩ := List.mem_filterMap.mp hcommand
    exact (h.wellFormed.mem_commands.mp (h.trace.mem_commands_of_descent? hmem hdescent)).1

/-- The argument of an option of the tree is there. -/
theorem isSome_slot? (h : report.Genuine) (hoption : (report.tree.option? option).isSome) :
    (report.tree.slot? option).isSome := by
  obtain ⟨node, hnode⟩ := Option.isSome_iff_exists.mp hoption
  unfold CommandTree.slot?
  rw [hnode]
  exact (h.wellFormed.of_option? hnode).1

/-- The argument of every binding is there. -/
theorem isSome_argument? (h : report.Genuine) (hbinding : binding ∈ report.bindings) :
    (report.tree.argument? binding.argument).isSome := by
  rcases mem_bindings_iff.mp hbinding with ⟨command, -, argument, hargument, rfl⟩ |
    ⟨option, hoption, rfl⟩
  · exact (h.wellFormed.of_mem_arguments (h.mem_arguments hargument)).1
  · obtain ⟨node, hnode⟩ := h.exists_option? hoption
    change (report.tree.argument? (report.slotId option)).isSome
    rw [slotId_of_option? hnode]
    exact (h.wellFormed.of_option? hnode).1

/-- A report refers to symbols of its tree. -/
theorem resolved (h : report.Genuine) (hstart : (report.tree.command? report.start).isSome) :
    report.Resolved := by
  refine ⟨?_, ?_, ?_, ?_, ?_⟩
  · intro found hfound
    refine h.isSome_command?_of_mem_path hstart ?_
    rw [← map_command_path]
    exact List.mem_map_of_mem hfound
  · intro found hfound
    obtain ⟨option, hoption, rfl⟩ := List.mem_map.mp hfound
    exact Option.isSome_iff_exists.mpr (h.exists_option? hoption)
  · exact fun binding hbinding => h.isSome_argument? hbinding
  · exact fun found _ argument hargument => (h.wellFormed.of_mem_arguments hargument).1
  · exact fun option hoption => h.isSome_slot? (h.wellFormed.isSome_of_mem_scope_options hoption)

/-- A positional argument of a command on the path has a binding only among those of the command. -/
theorem binding?_eq_none_iff (h : report.Genuine) (hfound : found ∈ report.path)
    (hargument : argument ∈ report.tree.arguments found.command) :
    report.binding? argument = none ↔ ∀ binding ∈ found.arguments, binding.argument ≠ argument := by
  unfold binding?
  rw [List.find?_eq_none]
  constructor
  · intro hnone binding hbinding
    simpa using hnone binding (List.mem_append_left _ (List.mem_flatMap.mpr ⟨found, hfound, hbinding⟩))
  · intro hnone binding hbinding
    rw [decide_eq_true_eq]
    rintro rfl
    rcases mem_bindings_iff.mp hbinding with ⟨command, -, argument, hgiven, rfl⟩ |
      ⟨option, hoption, rfl⟩
    · obtain rfl := h.wellFormed.eq_of_mem_arguments hargument (h.mem_arguments hgiven)
      refine hnone ⟨argument, _⟩ ?_ rfl
      rw [eq_commandMatch_of_mem_path hfound]
      exact List.mem_map_of_mem (f := fun argument => Binding.mk argument _) hgiven
    · exact h.slotId_notMem_arguments hoption hargument

end Genuine

end Report

end CommandLine
