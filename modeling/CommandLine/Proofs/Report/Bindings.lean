import CommandLine.Proofs.Report.Genuine
import CommandLine.Proofs.Sequence

/-!
# The bindings of a report

No argument has two bindings: a positional argument belongs to one command of the path, which is
there once, and an option's argument belongs to that option. So a binding can be looked up by its
argument, and each value that a reading gives is held by exactly one binding.
-/

namespace CommandLine

variable {β : Type}

/-- A binding has as many raw texts as values. -/
theorem Binding.length_raws (binding : Binding) : binding.raws.length = binding.values.length :=
  List.length_map _

/-- A binding without values has no raw texts. -/
theorem Binding.raws_eq_nil_iff {binding : Binding} : binding.raws = [] ↔ binding.values = [] :=
  List.map_eq_nil_iff

/-- The values that a reading gives to some argument. -/
def Reading.given (reading : Reading) : List Bound :=
  match reading.meaning with
  | .option _ inline => inline.map (⟨·, reading.position⟩)
  | .optionValue _ => [⟨reading.text, reading.position⟩]
  | .positional _ => [⟨reading.text, reading.position⟩]
  | _ => []

namespace Report

/-- The argument that the values of a reading are for. -/
def holder? (report : Report β) (reading : Reading) : Option SymbolId :=
  match reading.meaning with
  | .option option _ => some (report.slotId option)
  | .optionValue option => some (report.slotId option)
  | .positional argument => some argument
  | _ => none

variable {report : Report β}

/-! ## Views of the readings -/

/-- The matched options are those that some reading is an occurrence of. -/
theorem mem_optionIds {option : SymbolId} :
    option ∈ report.optionIds ↔ option ∈ report.readings.filterMap Reading.option? :=
  List.mem_eraseDups

/-- No option is matched twice. -/
theorem nodup_optionIds (report : Report β) : report.optionIds.Nodup :=
  Sequence.nodup_eraseDups _

/-- The positional arguments with values are those that some reading was placed at. -/
theorem mem_argumentIds {command argument : SymbolId} : argument ∈ report.argumentIds command ↔
    ∃ reading ∈ report.readings, reading.command = command ∧
      reading.meaning = .positional argument := by
  unfold argumentIds
  rw [List.mem_eraseDups, List.mem_filterMap]
  constructor
  · rintro ⟨reading, hmem, hpositional⟩
    obtain ⟨hmem, hcommand⟩ := List.mem_filter.mp hmem
    refine ⟨reading, hmem, by simpa using hcommand, ?_⟩
    unfold Reading.positional? at hpositional
    split at hpositional
    · rw [← Option.some.inj hpositional]
      assumption
    · simp at hpositional
  · rintro ⟨reading, hmem, hcommand, hmeaning⟩
    refine ⟨reading, List.mem_filter.mpr ⟨hmem, by simpa using hcommand⟩, ?_⟩
    simp [Reading.positional?, hmeaning]

/-- The commands of the path in order. -/
theorem map_command_path (report : Report β) :
    report.path.map (·.command) = Reading.path report.start report.readings := by
  unfold path Reading.path
  rw [List.map_cons, List.map_filterMap]
  congr 1
  refine List.filterMap_congr fun reading _ => ?_
  cases reading.descent? <;> rfl

/-- What a report knows of a command on the path. -/
theorem eq_commandMatch_of_mem_path {found : CommandMatch} (h : found ∈ report.path) :
    found = report.commandMatch found.command found.token := by
  unfold path at h
  rcases List.mem_cons.mp h with rfl | h
  · rfl
  · obtain ⟨reading, -, hfound⟩ := List.mem_filterMap.mp h
    obtain ⟨command, -, rfl⟩ := Option.map_eq_some_iff.mp hfound
    rfl

/-- The positional bindings, command by command. -/
theorem positional_bindings (report : Report β) :
    report.path.flatMap (·.arguments) =
      (Reading.path report.start report.readings).flatMap report.arguments := by
  rw [← map_command_path, List.flatMap_map]
  refine List.flatMap_congr fun found hfound => ?_
  rw [report.eq_commandMatch_of_mem_path hfound]
  rfl

/-- The arguments of the bindings in order. -/
theorem map_argument_bindings (report : Report β) :
    report.bindings.map (·.argument) =
      (Reading.path report.start report.readings).flatMap report.argumentIds ++
        report.optionIds.map report.slotId := by
  unfold bindings
  rw [List.map_append, positional_bindings, List.map_flatMap]
  congr 1
  · refine List.flatMap_congr fun command _ => ?_
    unfold arguments
    rw [List.map_map]
    exact List.map_id _
  · unfold options
    rw [List.map_map, List.map_map]
    rfl

/-- The argument of an option of the tree. -/
theorem slotId_of_option? {option : SymbolId} {node : OptionNode β}
    (h : report.tree.option? option = some node) : report.slotId option = node.argument := by
  unfold slotId
  rw [h]
  rfl

/-- What is found for an argument is a binding of it. -/
theorem of_binding?_eq_some {argument : SymbolId} {binding : Binding}
    (h : report.binding? argument = some binding) :
    binding ∈ report.bindings ∧ binding.argument = argument := by
  unfold binding? at h
  exact ⟨List.mem_of_find?_eq_some h, by simpa using List.find?_some h⟩

/-! ## Distinct arguments -/

namespace Genuine

variable {command argument option : SymbolId} {reading : Reading} {binding : Binding}

/-- A reading at a positional argument was made under the command that has the argument. -/
theorem mem_arguments_of_reading (h : report.Genuine) (hmem : reading ∈ report.readings)
    (hmeaning : reading.meaning = .positional argument) :
    argument ∈ report.tree.arguments reading.command := by
  have hsound := h.trace.sound hmem
  unfold Reading.Sound at hsound
  rw [hmeaning] at hsound
  exact hsound

/-- The positional arguments with values are arguments of their command. -/
theorem mem_arguments (h : report.Genuine) (hargument : argument ∈ report.argumentIds command) :
    argument ∈ report.tree.arguments command := by
  obtain ⟨reading, hmem, rfl, hmeaning⟩ := mem_argumentIds.mp hargument
  exact h.mem_arguments_of_reading hmem hmeaning

/-- A matched option is an option. -/
theorem exists_option? (h : report.Genuine) (hoption : option ∈ report.optionIds) :
    ∃ node, report.tree.option? option = some node :=
  Option.isSome_iff_exists.mp
    (h.trace.isSome_option? h.wellFormed h.scope (mem_optionIds.mp hoption))

/-- The argument of a matched option hangs below the option. -/
theorem parent?_slotId (h : report.Genuine) (hoption : option ∈ report.optionIds) :
    report.tree.parent? (report.slotId option) = some option := by
  obtain ⟨node, hnode⟩ := h.exists_option? hoption
  rw [slotId_of_option? hnode]
  exact (h.wellFormed.of_option? hnode).2

/-- The argument of a matched option is no positional argument. -/
theorem slotId_notMem_arguments (h : report.Genuine) (hoption : option ∈ report.optionIds) :
    report.slotId option ∉ report.tree.arguments command := by
  intro hmem
  obtain ⟨node, hnode⟩ := h.exists_option? hoption
  have hparent := (h.wellFormed.of_mem_arguments hmem).2
  rw [h.parent?_slotId hoption] at hparent
  obtain rfl := Option.some.inj hparent
  rw [CommandTree.option?_eq_none_of_mem_arguments hmem] at hnode
  simp at hnode

/-- Two matched options have different arguments. -/
theorem slotId_inj (h : report.Genuine) {other : SymbolId} (hoption : option ∈ report.optionIds)
    (hother : other ∈ report.optionIds) (hslot : report.slotId option = report.slotId other) :
    option = other := by
  have hparent := h.parent?_slotId hoption
  rw [hslot, h.parent?_slotId hother] at hparent
  exact (Option.some.inj hparent).symm

/-- No argument has two bindings. -/
theorem nodup_bindings (h : report.Genuine) : (report.bindings.map (·.argument)).Nodup := by
  rw [map_argument_bindings, List.nodup_append, List.nodup_flatMap]
  refine ⟨⟨?_, ?_⟩, ?_, ?_⟩
  · exact fun command _ => Sequence.nodup_eraseDups _
  · refine (h.trace.nodup_path h.wellFormed).imp_of_mem fun {first second} _ _ hne => ?_
    intro argument hfirst hsecond
    exact hne (h.wellFormed.eq_of_mem_arguments (h.mem_arguments hfirst) (h.mem_arguments hsecond))
  · refine (nodup_optionIds report).map_on ?_
    intro first hfirst second hsecond hslot
    exact h.slotId_inj hfirst hsecond hslot
  · intro argument hpositional slot hslot heq
    subst slot
    obtain ⟨command, -, hargument⟩ := List.mem_flatMap.mp hpositional
    obtain ⟨option, hoption, rfl⟩ := List.mem_map.mp hslot
    exact h.slotId_notMem_arguments hoption (h.mem_arguments hargument)

/-- Two bindings of one argument are the same. -/
theorem eq_of_argument_eq (h : report.Genuine) {other : Binding}
    (hbinding : binding ∈ report.bindings) (hother : other ∈ report.bindings)
    (hargument : binding.argument = other.argument) : binding = other :=
  List.inj_on_of_nodup_map h.nodup_bindings hbinding hother hargument

/-- A binding is found by its argument. -/
theorem binding?_of_mem (h : report.Genuine) (hbinding : binding ∈ report.bindings) :
    report.binding? binding.argument = some binding := by
  cases hfind : report.binding? binding.argument with
  | none =>
    have hnone := List.find?_eq_none.mp hfind binding hbinding
    simp at hnone
  | some found =>
    obtain ⟨hfound, hargument⟩ := of_binding?_eq_some hfind
    rw [h.eq_of_argument_eq hfound hbinding hargument]

/-- The binding of a matched option is found by the option's argument. -/
theorem binding?_slotId (h : report.Genuine) (hoption : option ∈ report.optionIds) :
    report.binding? (report.slotId option) = some (report.optionMatch option).binding := by
  have hbinding : (report.optionMatch option).binding ∈ report.bindings :=
    List.mem_append_right _ (List.mem_map_of_mem (List.mem_map_of_mem hoption))
  exact h.binding?_of_mem hbinding

/-! ## Values and their holders -/

/-- An option that a reading names or gives a value to is matched. -/
theorem mem_optionIds_of_reading (h : report.Genuine) (hmem : reading ∈ report.readings)
    (hmeaning : (∃ inline, reading.meaning = .option option inline) ∨
      reading.meaning = .optionValue option) : option ∈ report.optionIds := by
  rw [mem_optionIds]
  rcases hmeaning with ⟨inline, hmeaning⟩ | hmeaning
  · exact List.mem_filterMap.mpr ⟨reading, hmem, by simp [Reading.option?, hmeaning]⟩
  · exact h.trace.option_mem hmem hmeaning

/-- The binding of a positional argument holds what the readings give to the argument. -/
theorem positionalValues_eq (h : report.Genuine) (hargument : argument ∈ report.tree.arguments command)
    (hmem : reading ∈ report.readings) :
    reading.positionalValues argument =
      if report.holder? reading = some argument then reading.given else [] := by
  have hother : ∀ other ∈ report.optionIds, report.slotId other ≠ argument := by
    rintro other hother rfl
    exact h.slotId_notMem_arguments hother hargument
  unfold Reading.positionalValues holder? Reading.given
  cases hmeaning : reading.meaning with
  | option other inline =>
    simp [hother other (h.mem_optionIds_of_reading hmem (Or.inl ⟨inline, hmeaning⟩))]
  | optionValue other =>
    simp [hother other (h.mem_optionIds_of_reading hmem (Or.inr hmeaning))]
  | _ => simp

/-- What the readings give to an option, matched or not, is what they give to its argument. -/
theorem optionValues_eq_of_option? (h : report.Genuine) {node : OptionNode β}
    (hnode : report.tree.option? option = some node) (hmem : reading ∈ report.readings) :
    reading.optionValues option =
      if report.holder? reading = some node.argument then reading.given else [] := by
  have hparent := (h.wellFormed.of_option? hnode).2
  have hother : ∀ other ∈ report.optionIds, report.slotId other = node.argument ↔ other = option := by
    intro other hother
    refine ⟨fun hslot => ?_, fun heq => by rw [heq, slotId_of_option? hnode]⟩
    have hown := h.parent?_slotId hother
    rw [hslot, hparent] at hown
    exact (Option.some.inj hown).symm
  unfold Reading.optionValues holder? Reading.given
  cases hmeaning : reading.meaning with
  | option other inline =>
    simp [hother other (h.mem_optionIds_of_reading hmem (Or.inl ⟨inline, hmeaning⟩))]
  | optionValue other =>
    simp [hother other (h.mem_optionIds_of_reading hmem (Or.inr hmeaning))]
  | positional argument =>
    have hne : argument ≠ node.argument := by
      rintro rfl
      have hargument := h.mem_arguments_of_reading hmem hmeaning
      rw [(h.wellFormed.of_mem_arguments hargument).2] at hparent
      rw [Option.some.inj hparent] at hargument
      simp [CommandTree.option?_eq_none_of_mem_arguments hargument] at hnode
    simp [hne]
  | _ => simp

/-- The binding of a matched option holds what the readings give to its argument. -/
theorem optionValues_eq (h : report.Genuine) (hoption : option ∈ report.optionIds)
    (hmem : reading ∈ report.readings) :
    reading.optionValues option =
      if report.holder? reading = some (report.slotId option) then reading.given else [] := by
  obtain ⟨node, hnode⟩ := h.exists_option? hoption
  rw [slotId_of_option? hnode]
  exact h.optionValues_eq_of_option? hnode hmem

/-- A binding is one of a positional argument or one of a matched option. -/
theorem mem_bindings_iff : binding ∈ report.bindings ↔
    (∃ command ∈ Reading.path report.start report.readings,
      ∃ argument ∈ report.argumentIds command,
        binding = ⟨argument, report.readings.flatMap (Reading.positionalValues argument)⟩) ∨
      ∃ option ∈ report.optionIds, binding = (report.optionMatch option).binding := by
  unfold bindings options
  rw [positional_bindings]
  simp only [arguments, List.mem_append, List.mem_flatMap, List.mem_map, eq_comm]
  simp

/-- Every binding holds what the readings give to its argument. -/
theorem values_eq (h : report.Genuine) (hbinding : binding ∈ report.bindings) :
    binding.values = report.readings.flatMap fun reading =>
      if report.holder? reading = some binding.argument then reading.given else [] := by
  rcases mem_bindings_iff.mp hbinding with ⟨command, -, argument, hargument, rfl⟩ |
    ⟨option, hoption, rfl⟩
  · exact List.flatMap_congr fun reading hmem =>
      h.positionalValues_eq (h.mem_arguments hargument) hmem
  · exact List.flatMap_congr fun reading hmem => h.optionValues_eq hoption hmem

/-- A reading that gives values gives them to an argument with a binding. -/
theorem exists_holder (h : report.Genuine) (hmem : reading ∈ report.readings)
    (hgiven : reading.given ≠ []) :
    ∃ argument ∈ report.bindings.map (·.argument), report.holder? reading = some argument := by
  rw [map_argument_bindings]
  simp only [List.mem_append, List.mem_flatMap, List.mem_map]
  unfold holder?
  cases hmeaning : reading.meaning with
  | option option inline =>
    have hoption := h.mem_optionIds_of_reading hmem (Or.inl ⟨inline, hmeaning⟩)
    exact ⟨_, Or.inr ⟨option, hoption, rfl⟩, rfl⟩
  | optionValue option =>
    have hoption := h.mem_optionIds_of_reading hmem (Or.inr hmeaning)
    exact ⟨_, Or.inr ⟨option, hoption, rfl⟩, rfl⟩
  | positional argument =>
    exact ⟨argument, Or.inl ⟨reading.command, h.trace.command_mem_path hmem,
      mem_argumentIds.mpr ⟨reading, hmem, rfl, hmeaning⟩⟩, rfl⟩
  | _ => simp [Reading.given, hmeaning] at hgiven

/-- The values of all bindings are the values of all readings, up to order. -/
theorem values_perm (h : report.Genuine) :
    (report.bindings.flatMap (·.values)).Perm (report.readings.flatMap Reading.given) := by
  have hvalues : report.bindings.flatMap (·.values) =
      (report.bindings.map (·.argument)).flatMap fun argument =>
        report.readings.flatMap fun reading =>
          if report.holder? reading = some argument then reading.given else [] := by
    rw [List.flatMap_map]
    exact List.flatMap_congr fun binding hbinding => h.values_eq hbinding
  rw [hvalues]
  exact Sequence.flatMap_split_perm h.nodup_bindings report.holder? Reading.given _
    fun reading hmem hgiven => h.exists_holder hmem hgiven

end Genuine

end Report

end CommandLine
