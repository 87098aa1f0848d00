import CommandLine.Proofs.Report.Continuation
import CommandLine.Proofs.Report.Descent

/-!
# Options given in another way

Two command lines can give the same values to the same options and differ in how they do so: where
the options stand, and in how many tokens. Their reports then agree in everything but the places and
the order of options. Commands, positional arguments and unmatched tokens are the same because the
readings that have nothing to do with options are; and what is said of an option, its conversion and
its errors included, only depends on the texts that it was given.

The errors are the same apart from their places. They come in the order of the options, so in the
same order if the options do.
-/

namespace CommandLine

variable {β : Type}

namespace Reading

/-- Whether a reading names an option or gives it a value. -/
def servesOption (reading : Reading) : Bool :=
  match reading.meaning with
  | .option _ _ => true
  | .optionValue _ => true
  | _ => false

/-- A reading that names an option or gives it a value does nothing else. -/
theorem of_servesOption {reading : Reading} (h : reading.servesOption = true) :
    reading.descent? = none ∧ reading.positional? = none ∧
      (∀ argument, reading.positionalValues argument = []) ∧ reading.meaning ≠ .unmatched := by
  unfold servesOption at h
  unfold descent? positional? positionalValues
  cases hmeaning : reading.meaning <;> simp_all

/-- A reading that names an option gives it the values of its own token. -/
theorem texts_optionValues {reading : Reading} {id : SymbolId} {inline : List String}
    (hmeaning : reading.meaning = .option id inline) (option : SymbolId) :
    (reading.optionValues option).map (·.text) = if id = option then inline else [] := by
  simp only [optionValues, hmeaning]
  by_cases hoption : id = option
  · simp [hoption, Function.comp_def]
  · simp [hoption]

end Reading

namespace Report

/-- Two reports that agree but for the places of options and for their order. -/
structure Concurs (first second : Report β) : Prop where
  /-- The commands of the path, with the tokens that named them and their positional arguments. -/
  path : first.path.map (fun found => (found.command, found.token, found.arguments)) =
    second.path.map fun found => (found.command, found.token, found.arguments)
  terminal : first.terminal = second.terminal
  unmatched : first.unmatched = second.unmatched
  /-- Each option is matched under the same command, with the same raw values. -/
  option? : ∀ option,
    (first.option? option).map OptionMatch.gist = (second.option? option).map OptionMatch.gist
  /-- Each argument, positional or of an option, has the same raw values and the same conversion. -/
  binding? : ∀ argument,
    (first.binding? argument).map (fun binding => (binding.raws, first.settle binding)) =
      (second.binding? argument).map fun binding => (binding.raws, second.settle binding)
  valueOf : ∀ id, first.valueOf id = second.valueOf id
  errors : (first.errors.map ParseError.gist).Perm (second.errors.map ParseError.gist)

/-- Two reports that agree but for the places of options. -/
structure Coincides (first second : Report β) : Prop where
  path : first.path = second.path
  terminal : first.terminal = second.terminal
  unmatched : first.unmatched = second.unmatched
  options : first.options.map OptionMatch.gist = second.options.map OptionMatch.gist
  bindings : first.bindings.map Binding.gist = second.bindings.map Binding.gist
  settle : first.bindings.map first.settle = second.bindings.map second.settle
  valueOf : ∀ id, first.valueOf id = second.valueOf id
  selection : first.selection = second.selection
  action? : first.action? = second.action?
  actionsAhead : first.actionsAhead = second.actionsAhead
  errors : first.errors.map ParseError.gist = second.errors.map ParseError.gist

/-- Two reports of which the readings that have nothing to do with options are the same, and give
each option the same texts under the same commands. -/
structure Regroups (first second : Report β) : Prop where
  first_genuine : first.Genuine
  second_genuine : second.Genuine
  setting : first.setting = second.setting
  start : first.start = second.start
  others : first.readings.filter (!·.servesOption) = second.readings.filter (!·.servesOption)
  commands : ∀ option,
    (first.occurrences option).map (·.command) = (second.occurrences option).map (·.command)
  texts : ∀ option, (first.readings.flatMap (Reading.optionValues option)).map (·.text) =
    (second.readings.flatMap (Reading.optionValues option)).map (·.text)

/-- What the errors of a report say if the options are matched in a given order. -/
def sayings (report : Report β) (options : List SymbolId) :
    List (ErrorKind × String × Option String × Option SymbolId) :=
  report.unrecognizedErrors.map ParseError.gist ++
    ((options.filterMap fun option =>
        (report.optionBindingError? (report.optionMatch option)).map ParseError.gist) ++
      (report.path.flatMap report.argumentErrors).map ParseError.gist) ++
    ((options.flatMap fun option =>
        (report.optionRejections (report.optionMatch option)).map ParseError.gist) ++
      ((report.path.flatMap (·.arguments)).flatMap report.argumentRejections).map
        ParseError.gist) ++
    report.omissionErrors.map ParseError.gist

variable {report first second : Report β} {option argument : SymbolId}

/-- What the errors of a report say. -/
theorem map_gist_errors (report : Report β) :
    report.errors.map ParseError.gist = report.sayings report.optionIds := by
  rw [errors, bindingErrors, validationErrors, sayings, options]
  simp only [List.map_append, List.filterMap_map, List.map_filterMap, List.flatMap_map,
    List.map_flatMap]
  rfl

/-- In another order of the options the same is said. -/
theorem sayings_perm (report : Report β) {options others : List SymbolId}
    (h : options.Perm others) : (report.sayings options).Perm (report.sayings others) := by
  rw [sayings, sayings]
  exact ((((h.filterMap _).append_right _).append_left _).append
    ((h.flatMap_right _).append_right _)).append_right _

namespace Regroups

/-- Both reports are about one tree. -/
theorem tree (h : first.Regroups second) : first.tree = second.tree :=
  congrArg Setting.tree h.setting

/-- Either report can come first. -/
theorem symm (h : first.Regroups second) : second.Regroups first :=
  ⟨h.second_genuine, h.first_genuine, h.setting.symm, h.start.symm, h.others.symm,
    fun option => (h.commands option).symm, fun option => (h.texts option).symm⟩

/-! ## What options have no part in -/

/-- Values that options have no part in are the same. -/
theorem flatMap_readings (h : first.Regroups second) {A : Type} {view : Reading → List A}
    (hview : ∀ reading, reading.servesOption = true → view reading = []) :
    first.readings.flatMap view = second.readings.flatMap view := by
  have hothers : ∀ readings : List Reading,
      readings.flatMap view = (readings.filter (!·.servesOption)).flatMap view := by
    intro readings
    induction readings with
    | nil => rfl
    | cons reading rest ih =>
      rw [List.flatMap_cons, ih]
      cases hserves : reading.servesOption <;> simp [hserves, hview]
  rw [hothers first.readings, hothers second.readings, h.others]

/-- What options have no part in is the same. -/
theorem filterMap_readings (h : first.Regroups second) {A : Type} {view : Reading → Option A}
    (hview : ∀ reading, reading.servesOption = true → view reading = none) :
    first.readings.filterMap view = second.readings.filterMap view := by
  rw [List.filterMap_eq_flatMap_toList, List.filterMap_eq_flatMap_toList]
  exact h.flatMap_readings fun reading hserves => by rw [hview reading hserves]; rfl

/-- The same tokens match nothing. -/
theorem unmatchedReadings_eq (h : first.Regroups second) :
    first.unmatchedReadings = second.unmatchedReadings := by
  rw [unmatchedReadings, unmatchedReadings, ← List.filterMap_eq_filter]
  apply h.filterMap_readings
  intro reading hserves
  exact Option.guard_eq_none_iff.mpr (by simp [(Reading.of_servesOption hserves).2.2.2])

/-- The same commands are named by the same tokens. -/
theorem stops_eq (h : first.Regroups second) : first.stops = second.stops := by
  rw [stops, stops, h.start]
  congr 1
  apply h.filterMap_readings
  intro reading hserves
  rw [(Reading.of_servesOption hserves).1, Option.map_none]

/-- The positional arguments of a command have the same values at the same places. -/
theorem arguments_eq (h : first.Regroups second) (command : SymbolId) :
    first.arguments command = second.arguments command := by
  have hids : first.argumentIds command = second.argumentIds command := by
    rw [argumentIds, argumentIds, List.filterMap_filter, List.filterMap_filter]
    congr 1
    apply h.filterMap_readings
    intro reading hserves
    rw [(Reading.of_servesOption hserves).2.1, ite_self]
  rw [arguments, arguments, hids]
  apply List.map_congr_left
  intro argument _
  rw [h.flatMap_readings fun reading hserves => (Reading.of_servesOption hserves).2.2.1 argument]

/-- The paths have the same commands, tokens and positional arguments. -/
theorem path_eq (h : first.Regroups second) :
    first.path.map (fun found => (found.command, found.token, found.arguments)) =
      second.path.map fun found => (found.command, found.token, found.arguments) := by
  rw [path_eq_map_stops, path_eq_map_stops, h.stops_eq, List.map_map, List.map_map]
  apply List.map_congr_left
  intro stop _
  change (stop.1, stop.2, first.arguments stop.1) = (stop.1, stop.2, second.arguments stop.1)
  rw [h.arguments_eq]

/-- The paths have the same commands. -/
theorem commands_path_eq (h : first.Regroups second) :
    Reading.path first.start first.readings = Reading.path second.start second.readings := by
  rw [← map_fst_stops, ← map_fst_stops, h.stops_eq]

/-- Both reports end at the same command. -/
theorem terminal_eq (h : first.Regroups second) : first.terminal = second.terminal := by
  have hlast := Reading.getLast?_path first.start first.readings
  rw [h.commands_path_eq, Reading.getLast?_path] at hlast
  exact (Option.some.inj hlast).symm

/-- The bindings of positional arguments are the same. -/
theorem positional_eq (h : first.Regroups second) :
    first.path.flatMap (·.arguments) = second.path.flatMap (·.arguments) := by
  rw [positional_bindings, positional_bindings, h.commands_path_eq]
  exact List.flatMap_congr fun command _ => h.arguments_eq command

/-! ## Options -/

/-- An option is matched if it has an occurrence. -/
theorem mem_optionIds_iff : option ∈ report.optionIds ↔
    (report.occurrences option).map (·.command) ≠ [] := by
  rw [mem_optionIds, List.mem_filterMap, Ne, List.map_eq_nil_iff, occurrences,
    List.filter_eq_nil_iff]
  simp

/-- The same options are matched. -/
theorem optionIds_perm (h : first.Regroups second) : first.optionIds.Perm second.optionIds := by
  rw [List.perm_ext_iff_of_nodup first.nodup_optionIds second.nodup_optionIds]
  intro option
  rw [mem_optionIds_iff, mem_optionIds_iff, h.commands]

/-- What is known of an option is the same apart from its places. -/
theorem gist_optionMatch (h : first.Regroups second) (option : SymbolId) :
    (first.optionMatch option).gist = (second.optionMatch option).gist := by
  have hcommand : ((first.occurrences option).head?.map (·.command)).getD first.start =
      ((second.occurrences option).head?.map (·.command)).getD second.start := by
    rw [← List.head?_map, ← List.head?_map, h.commands, h.start]
  have hslot : first.slotId option = second.slotId option := by
    rw [slotId, slotId, h.tree]
  rw [OptionMatch.gist, OptionMatch.gist, Binding.gist, Binding.gist, Binding.raws, Binding.raws]
  simp only [optionMatch, hcommand, hslot, h.texts]

/-- What the bindings of an option say is the same. -/
theorem gist_binding (h : first.Regroups second) (option : SymbolId) :
    (first.optionMatch option).binding.gist = (second.optionMatch option).binding.gist :=
  congrArg (·.2.2) (h.gist_optionMatch option)

/-- What is found for an option is the same. -/
theorem gist_option? (h : first.Regroups second) (option : SymbolId) :
    (first.option? option).map OptionMatch.gist = (second.option? option).map OptionMatch.gist := by
  have hmem := h.optionIds_perm.mem_iff (a := option)
  rw [option?_eq, option?_eq, apply_ite (Option.map _), apply_ite (Option.map _), Option.map_some,
    Option.map_some, h.gist_optionMatch]
  simp only [hmem]

/-! ## Values -/

/-- A binding that is found in one report is found in the other with the same raw values. -/
theorem exists_binding? (h : first.Regroups second) {binding : Binding}
    (hbinding : first.binding? argument = some binding) :
    ∃ other, second.binding? argument = some other ∧ other.gist = binding.gist := by
  obtain ⟨hmem, rfl⟩ := of_binding?_eq_some hbinding
  rcases List.mem_append.mp hmem with hpositional | hoption
  · rw [h.positional_eq] at hpositional
    exact ⟨binding, h.second_genuine.binding?_of_mem (List.mem_append_left _ hpositional), rfl⟩
  · obtain ⟨found, hfound, rfl⟩ := List.mem_map.mp hoption
    obtain ⟨option, hids, rfl⟩ := List.mem_map.mp hfound
    have hgist := h.gist_binding option
    have hslot : (first.optionMatch option).binding.argument = second.slotId option :=
      congrArg Prod.fst hgist
    rw [hslot]
    exact ⟨_, h.second_genuine.binding?_slotId (h.optionIds_perm.mem_iff.mp hids), hgist.symm⟩

/-- What is found for an argument says the same. -/
theorem gist_binding? (h : first.Regroups second) (argument : SymbolId) :
    (first.binding? argument).map Binding.gist = (second.binding? argument).map Binding.gist := by
  cases hfirst : first.binding? argument with
  | some binding =>
    obtain ⟨other, hother, hgist⟩ := h.exists_binding? hfirst
    rw [hother, Option.map_some, Option.map_some, hgist]
  | none =>
    cases hsecond : second.binding? argument with
    | none => rfl
    | some other =>
      obtain ⟨binding, hbinding, -⟩ := h.symm.exists_binding? hsecond
      rw [hfirst] at hbinding
      cases hbinding

/-- What is found for an argument has the same raw values and becomes the same. -/
theorem settle_binding? (h : first.Regroups second) (argument : SymbolId) :
    (first.binding? argument).map (fun binding => (binding.raws, first.settle binding)) =
      (second.binding? argument).map fun binding => (binding.raws, second.settle binding) := by
  have hgist := h.gist_binding? argument
  cases hfirst : first.binding? argument with
  | none =>
    rw [hfirst, Option.map_none] at hgist
    rw [Option.map_eq_none_iff.mp hgist.symm]
    rfl
  | some binding =>
    rw [hfirst, Option.map_some] at hgist
    obtain ⟨other, hother, hsame⟩ := Option.map_eq_some_iff.mp hgist.symm
    have hraws : other.raws = binding.raws := congrArg Prod.snd hsame
    rw [hother, Option.map_some, Option.map_some, settle_congr h.tree hsame.symm, hraws]

/-- The values of all symbols come from the same. -/
theorem origin_eq (h : first.Regroups second) (id : SymbolId) :
    first.origin id = second.origin id := by
  refine origin_congr h.tree (fun argument => ?_) id
  have hraws := congrArg (Option.map Prod.snd) (h.gist_binding? argument)
  rw [Option.map_map, Option.map_map] at hraws
  exact hraws

/-! ## Errors -/

/-- The same is wrong with the tokens that match nothing. -/
theorem unrecognizedErrors_eq (h : first.Regroups second) :
    first.unrecognizedErrors = second.unrecognizedErrors := by
  have hreading : first.unrecognized? = second.unrecognized? := by
    funext reading
    rw [unrecognized?, unrecognized?, h.tree, config, config, h.setting]
  rw [unrecognizedErrors, unrecognizedErrors, h.unmatchedReadings_eq, hreading]

/-- The same is wrong with positional arguments, at the same places. -/
theorem pathErrors_eq (h : first.Regroups second) :
    first.path.flatMap first.argumentErrors = second.path.flatMap second.argumentErrors := by
  have hcommand : ∀ command token, first.argumentErrors (first.commandMatch command token) =
      second.argumentErrors (second.commandMatch command token) := by
    intro command token
    have hbinding : first.bindingError? = second.bindingError? := by
      funext owner position binding
      rw [bindingError?, bindingError?, h.tree]
    have hmissing : first.missingArgument? (first.commandMatch command token) =
        second.missingArgument? (second.commandMatch command token) := by
      funext argument
      rw [missingArgument?, missingArgument?, commandMatch, commandMatch, h.tree, h.arguments_eq]
    rw [argumentErrors, argumentErrors, hbinding, hmissing, h.tree]
    simp only [commandMatch, h.arguments_eq]
  rw [path_eq_map_stops, path_eq_map_stops, h.stops_eq, List.flatMap_map, List.flatMap_map]
  exact List.flatMap_congr fun stop _ => hcommand stop.1 stop.2

/-- The errors say the same if the options are matched in the same order. -/
theorem sayings_eq (h : first.Regroups second) (options : List SymbolId) :
    first.sayings options = second.sayings options := by
  have hbinding : ∀ option,
      (first.optionBindingError? (first.optionMatch option)).map ParseError.gist =
        (second.optionBindingError? (second.optionMatch option)).map ParseError.gist :=
    fun option => gist_optionBindingError?_congr h.tree rfl (h.gist_binding option)
  have hrejections : ∀ option,
      (first.optionRejections (first.optionMatch option)).map ParseError.gist =
        (second.optionRejections (second.optionMatch option)).map ParseError.gist :=
    fun option => gist_optionRejections_congr h.tree rfl (h.gist_binding option)
  have hpositional : ((first.path.flatMap (·.arguments)).flatMap first.argumentRejections).map
        ParseError.gist =
      ((second.path.flatMap (·.arguments)).flatMap second.argumentRejections).map
        ParseError.gist := by
    rw [h.positional_eq, List.map_flatMap, List.map_flatMap]
    exact List.flatMap_congr fun binding _ => gist_argumentRejections_congr h.tree rfl
  have homission : first.omissionErrors = second.omissionErrors :=
    omissionErrors_congr h.setting (fun option => h.optionIds_perm.mem_iff) h.terminal_eq
  rw [sayings, sayings, h.unrecognizedErrors_eq, h.pathErrors_eq, hpositional, homission]
  simp only [hbinding, hrejections]

/-! ## Reports that agree -/

/-- Reports that give options the same texts agree but for places and for the order of options. -/
theorem concurs (h : first.Regroups second) : first.Concurs second where
  path := h.path_eq
  terminal := h.terminal_eq
  unmatched := by rw [unmatched, unmatched, h.unmatchedReadings_eq]
  option? := h.gist_option?
  binding? := h.settle_binding?
  valueOf id := by rw [valueOf, valueOf, h.origin_eq]
  errors := by
    rw [map_gist_errors, map_gist_errors, h.sayings_eq]
    exact second.sayings_perm h.optionIds_perm

/-! ## Options in the same order -/

section Order

variable (hids : first.optionIds = second.optionIds)

include hids

/-- What the matched options say is the same in order. -/
theorem gist_options (h : first.Regroups second) :
    first.options.map OptionMatch.gist = second.options.map OptionMatch.gist := by
  rw [options, options, hids, List.map_map, List.map_map]
  exact List.map_congr_left fun option _ => h.gist_optionMatch option

/-- What the bindings say is the same in order. -/
theorem gist_bindings (h : first.Regroups second) :
    first.bindings.map Binding.gist = second.bindings.map Binding.gist := by
  have hgists := congrArg (List.map (·.2.2)) (h.gist_options hids)
  rw [List.map_map, List.map_map] at hgists
  rw [bindings, bindings, h.positional_eq, List.map_append, List.map_append, List.map_map,
    List.map_map]
  exact congrArg _ hgists

/-- The raw values become the same in order. -/
theorem map_settle_bindings (h : first.Regroups second) :
    first.bindings.map first.settle = second.bindings.map second.settle := by
  have hsettle : ∀ report : Report β, report.settle =
      (fun said => (report.tree.argument? said.1).elim .idle (·.settle said.2)) ∘ Binding.gist :=
    fun _ => rfl
  rw [hsettle, hsettle, ← List.map_map, ← List.map_map, h.gist_bindings hids, h.tree]

/-- The paths are the same, with the options along them. -/
theorem path_eq_of_optionIds (h : first.Regroups second) : first.path = second.path := by
  have hlisted : ∀ command, (first.options.filter (·.command = command)).map (·.option) =
      (second.options.filter (·.command = command)).map (·.option) := by
    intro command
    have hpairs := congrArg (fun gists => (gists.filter (·.2.1 = command)).map (·.1))
      (h.gist_options hids)
    simp only [List.filter_map, List.map_map] at hpairs
    exact hpairs
  rw [path_eq_map_stops, path_eq_map_stops, h.stops_eq]
  apply List.map_congr_left
  intro stop _
  rw [commandMatch, commandMatch, hlisted, h.arguments_eq]

/-- Reports that give options the same texts in the same order agree but for places. -/
theorem coincides (h : first.Regroups second) : first.Coincides second := by
  have hselection := selection_congr h.tree hids h.terminal_eq
  obtain ⟨haction, hahead⟩ := actions_congr h.tree hselection
  exact {
    path := h.path_eq_of_optionIds hids
    terminal := h.terminal_eq
    unmatched := h.concurs.unmatched
    options := h.gist_options hids
    bindings := h.gist_bindings hids
    settle := h.map_settle_bindings hids
    valueOf := h.concurs.valueOf
    selection := hselection
    action? := haction
    actionsAhead := hahead
    errors := by rw [map_gist_errors, map_gist_errors, h.sayings_eq, hids] }

end Order

end Regroups

end Report

end CommandLine
