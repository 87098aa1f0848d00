import CommandLine.Proofs.Ledger.Walk
import CommandLine.Proofs.Report.Continuation
import Mathlib.Data.List.ModifyLast

/-!
# What one more reading adds to a report

The views of a report are made of all its readings, but one more reading changes little of them: it
adds a token, and maybe a command at the end of the path, an option at the end of the options, a
token or values to one option, or a value to one positional argument of the last command.
-/

namespace CommandLine

/-! ## Changes at one place -/

namespace Sequence

variable {A K : Type}

/-- A change that only concerns the member with one key is a change at its place. -/
theorem map_eq_modify {key : A → K} {values : List A} (hkeys : (values.map key).Nodup)
    {change : A → A} {place : ℕ} {member : A} (hplace : values[place]? = some member)
    (hothers : ∀ value ∈ values, key value ≠ key member → change value = value) :
    values.map change = values.modify place change := by
  apply List.ext_getElem?
  intro other
  rw [List.getElem?_map, List.getElem?_modify, Option.map_eq_map]
  cases hother : values[other]? with
  | none => rfl
  | some value =>
    by_cases heq : place = other
    · simp [heq]
    · have hne : key value ≠ key member := by
        intro hkey
        obtain rfl := List.inj_on_of_nodup_map hkeys (List.mem_of_getElem? hother)
          (List.mem_of_getElem? hplace) hkey
        obtain ⟨hplace, hmember⟩ := List.getElem?_eq_some_iff.mp hplace
        obtain ⟨hother, hmember'⟩ := List.getElem?_eq_some_iff.mp hother
        exact heq ((hkeys.of_map key).getElem_inj_iff.mp (hmember.trans hmember'.symm))
      simp [heq, hothers value (List.mem_of_getElem? hother) hne]

/-- A change at a place depends only on what it does to the member there. -/
theorem modify_congr {values : List A} {first second : A → A} {place : ℕ}
    (h : ∀ value, values[place]? = some value → first value = second value) :
    values.modify place first = values.modify place second := by
  apply List.ext_getElem?
  intro other
  rw [List.getElem?_modify, List.getElem?_modify, Option.map_eq_map, Option.map_eq_map]
  cases hother : values[other]? with
  | none => rfl
  | some value =>
    by_cases heq : place = other
    · subst heq
      simp [h value hother]
    · simp [heq]

/-- A repeat is erased wherever it stands. -/
theorem eraseDups_insert_of_mem [DecidableEq A] {before : List A} {value : A} (h : value ∈ before)
    (after : List A) : (before ++ value :: after).eraseDups = (before ++ after).eraseDups := by
  rw [List.eraseDups_append, List.cons_removeAll, if_neg (by simpa using h), List.eraseDups_append]

/-- A repeat at the end is erased. -/
theorem eraseDups_concat_of_mem [DecidableEq A] {values : List A} {value : A} (h : value ∈ values) :
    (values ++ [value]).eraseDups = values.eraseDups := by
  rw [eraseDups_insert_of_mem h, List.append_nil]

/-- A member at the end that is not among the others stays. -/
theorem eraseDups_concat_of_notMem [DecidableEq A] {values : List A} {value : A}
    (h : value ∉ values) : (values ++ [value]).eraseDups = values.eraseDups ++ [value] := by
  rw [List.eraseDups_append, List.cons_removeAll, if_pos (by simpa using h), List.nil_removeAll]
  rfl

/-- What is not among the members has no number. -/
theorem lookup_zipIdx_of_notMem [DecidableEq A] {values : List A} {value : A} (h : value ∉ values)
    (first : ℕ) : (values.zipIdx first).lookup value = none := by
  induction values generalizing first with
  | nil => rfl
  | cons other rest ih =>
    rw [List.mem_cons, not_or] at h
    rw [List.zipIdx_cons, List.lookup_cons, beq_false_of_ne h.1]
    exact ih h.2 (first + 1)

/-- The number of a member is a place where it stands. -/
theorem exists_lookup_zipIdx [DecidableEq A] {values : List A} {value : A} (h : value ∈ values)
    (first : ℕ) : ∃ place, (values.zipIdx first).lookup value = some (first + place) ∧
      values[place]? = some value := by
  induction values generalizing first with
  | nil => cases h
  | cons other rest ih =>
    rw [List.zipIdx_cons, List.lookup_cons]
    by_cases heq : value = other
    · subst heq
      rw [beq_self_eq_true]
      exact ⟨0, rfl, rfl⟩
    · obtain ⟨place, hlookup, hplace⟩ := ih ((List.mem_cons.mp h).resolve_left heq) (first + 1)
      rw [beq_false_of_ne heq]
      exact ⟨place + 1, by rw [hlookup, Nat.add_assoc, Nat.add_comm 1], hplace⟩

end Sequence

variable {β : Type}

/-- The matched option with what a reading gives to it. -/
def OptionMatch.absorb (reading : Reading) (found : OptionMatch) : OptionMatch :=
  { found with
    tokens := found.tokens ++ if reading.option? = some found.option then [reading.token] else []
    binding :=
      { found.binding with values := found.binding.values ++ reading.optionValues found.option } }

namespace Report

variable {report : Report β} {reading : Reading} {option argument command : SymbolId}

/-! ## Tokens -/

/-- One more reading is one more token. -/
theorem tokens_entry (report : Report β) (reading : Reading) :
    (report.extend [reading]).tokens = report.tokens ++ [reading.token] :=
  List.map_append

/-- A reading that matches something is no unmatched token and no error. -/
theorem unmatched_entry_of_ne (report : Report β) (h : reading.meaning ≠ .unmatched) :
    (report.extend [reading]).unmatched = report.unmatched ∧
      (report.extend [reading]).unrecognizedErrors = report.unrecognizedErrors := by
  have hreadings : (report.extend [reading]).unmatchedReadings = report.unmatchedReadings := by
    rw [unmatchedReadings, extend, List.filter_append, List.filter_cons_of_neg (by simpa using h)]
    exact List.append_nil _
  rw [unmatched, unrecognizedErrors, hreadings]
  exact ⟨rfl, rfl⟩

/-- A reading that matches nothing is one more unmatched token, and maybe an error. -/
theorem unmatched_entry (report : Report β) (h : reading.meaning = .unmatched) :
    (report.extend [reading]).unmatched = report.unmatched ++ [reading.token] ∧
      (report.extend [reading]).unrecognizedErrors =
        report.unrecognizedErrors ++ (report.unrecognized? reading).toList := by
  have hreadings : (report.extend [reading]).unmatchedReadings =
      report.unmatchedReadings ++ [reading] := by
    rw [unmatchedReadings, extend, List.filter_append, List.filter_cons_of_pos (by simpa using h),
      List.filter_nil, unmatchedReadings]
  have herror : (report.extend [reading]).unrecognized? = report.unrecognized? := rfl
  rw [unmatched, unrecognizedErrors, hreadings, List.map_append, List.filterMap_append, herror]
  refine ⟨rfl, ?_⟩
  cases hreading : report.unrecognized? reading <;> simp [hreading, unrecognizedErrors]

/-! ## Options -/

/-- A reading that names no option, or one that is matched already, matches no other option. -/
theorem optionIds_entry_of_mem (h : ∀ option, reading.option? = some option →
    option ∈ report.optionIds) : (report.extend [reading]).optionIds = report.optionIds := by
  rw [optionIds, extend, List.filterMap_append, optionIds]
  cases hoption : reading.option? with
  | none => rw [List.filterMap_cons_none hoption, List.filterMap_nil, List.append_nil]
  | some option =>
    rw [List.filterMap_cons_some hoption, List.filterMap_nil,
      Sequence.eraseDups_concat_of_mem (mem_optionIds.mp (h option hoption))]

/-- A reading that names an option for the first time matches it behind all others. -/
theorem optionIds_entry_of_notMem (hoption : reading.option? = some option)
    (hnew : option ∉ report.optionIds) :
    (report.extend [reading]).optionIds = report.optionIds ++ [option] := by
  rw [mem_optionIds] at hnew
  rw [optionIds, extend, List.filterMap_append, List.filterMap_cons_some hoption,
    List.filterMap_nil, Sequence.eraseDups_concat_of_notMem hnew, optionIds]

/-- The occurrences of an option grow by a reading that names it. -/
theorem occurrences_entry (report : Report β) (reading : Reading) (option : SymbolId) :
    (report.extend [reading]).occurrences option =
      report.occurrences option ++ if reading.option? = some option then [reading] else [] := by
  rw [occurrences, extend, List.filter_append, occurrences]
  congr 1
  by_cases h : reading.option? = some option <;> simp [h]

/-- The values of an option grow by what a reading gives to it. -/
theorem optionValues_entry (report : Report β) (reading : Reading) (option : SymbolId) :
    (report.extend [reading]).readings.flatMap (Reading.optionValues option) =
      report.readings.flatMap (Reading.optionValues option) ++ reading.optionValues option := by
  rw [extend, List.flatMap_append, List.flatMap_singleton]

/-- An option that was matched absorbs a reading. -/
theorem optionMatch_entry_of_mem (h : option ∈ report.optionIds) :
    (report.extend [reading]).optionMatch option = (report.optionMatch option).absorb reading := by
  obtain ⟨first, hfirst, hmatched⟩ := List.mem_filterMap.mp (mem_optionIds.mp h)
  have hne : report.occurrences option ≠ [] :=
    List.ne_nil_of_mem (List.mem_filter.mpr ⟨hfirst, by simpa using hmatched⟩)
  rw [optionMatch, occurrences_entry, optionValues_entry, List.head?_append_of_ne_nil _ hne,
    List.map_append, apply_ite (List.map Reading.token)]
  rfl

/-- An option that was not matched has neither occurrences nor values. -/
theorem Genuine.eq_nil_of_notMem (h : report.Genuine) (hnew : option ∉ report.optionIds) :
    report.occurrences option = [] ∧
      report.readings.flatMap (Reading.optionValues option) = [] := by
  constructor
  · rw [occurrences, List.filter_eq_nil_iff]
    intro earlier hmem hmatched
    exact hnew (mem_optionIds.mpr (List.mem_filterMap.mpr ⟨earlier, hmem, by simpa using hmatched⟩))
  · rw [List.flatMap_eq_nil_iff]
    intro earlier hmem
    have hnames := fun hmeaning => hnew (h.mem_optionIds_of_reading hmem hmeaning)
    rw [Reading.optionValues]
    cases hmeaning : earlier.meaning with
    | option id inline =>
      refine if_neg ?_
      rintro rfl
      exact hnames (.inl ⟨inline, hmeaning⟩)
    | optionValue id =>
      refine if_neg ?_
      rintro rfl
      exact hnames (.inr hmeaning)
    | _ => rfl

/-- An option that is matched for the first time starts with what the reading gives to it. -/
theorem Genuine.optionMatch_entry_of_notMem (h : report.Genuine)
    (hoption : reading.option? = some option) (hnew : option ∉ report.optionIds) :
    (report.extend [reading]).optionMatch option =
      (⟨option, reading.command, [], ⟨report.slotId option, []⟩⟩ : OptionMatch).absorb reading := by
  obtain ⟨hoccurrences, hvalues⟩ := h.eq_nil_of_notMem hnew
  rw [optionMatch, occurrences_entry, optionValues_entry, hoccurrences, hvalues, if_pos hoption]
  simp [OptionMatch.absorb, hoption, slotId, extend, tree]

/-- The matched options absorb a reading that matches no other option. -/
theorem options_entry_of_mem (h : ∀ option, reading.option? = some option →
    option ∈ report.optionIds) :
    (report.extend [reading]).options = report.options.map (OptionMatch.absorb reading) := by
  rw [options, optionIds_entry_of_mem h, options, List.map_map]
  exact List.map_congr_left fun option hmem => optionMatch_entry_of_mem hmem

/-- The matched options and a new one absorb a reading that names the new one. -/
theorem Genuine.options_entry_of_notMem (h : report.Genuine)
    (hoption : reading.option? = some option) (hnew : option ∉ report.optionIds) :
    (report.extend [reading]).options =
      (report.options ++ [(⟨option, reading.command, [], ⟨report.slotId option, []⟩⟩ :
        OptionMatch)]).map (OptionMatch.absorb reading) := by
  rw [options, optionIds_entry_of_notMem hoption hnew, List.map_append, List.map_append, options,
    List.map_map]
  congr 1
  · exact List.map_congr_left fun option hmem => optionMatch_entry_of_mem hmem
  · rw [List.map_singleton, List.map_singleton, h.optionMatch_entry_of_notMem hoption hnew]

/-- A reading that has nothing to do with options leaves them as they are. -/
theorem options_entry_of_other (hoption : reading.option? = none)
    (hvalues : ∀ option, reading.optionValues option = []) :
    (report.extend [reading]).options = report.options := by
  have hself : ∀ found : OptionMatch, found.absorb reading = found := by
    intro found
    simp [OptionMatch.absorb, hoption, hvalues]
  rw [options_entry_of_mem (by simp [hoption]), List.map_congr_left fun found _ => hself found,
    List.map_id']

/-- The options of the matches are the matched options. -/
theorem map_option_options (report : Report β) :
    report.options.map (·.option) = report.optionIds := by
  rw [options, List.map_map]
  exact List.map_id' _

/-- A reading that is about one option changes the match of this option only. -/
theorem map_absorb {options : List OptionMatch} (hkeys : (options.map (·.option)).Nodup)
    {place : ℕ} {found : OptionMatch} (hplace : options[place]? = some found)
    (honly : ∀ other, other ≠ found.option →
      reading.option? ≠ some other ∧ reading.optionValues other = []) :
    options.map (OptionMatch.absorb reading) =
      options.modify place (OptionMatch.absorb reading) := by
  refine Sequence.map_eq_modify hkeys hplace ?_
  intro other _ hne
  obtain ⟨hoption, hvalues⟩ := honly other.option hne
  simp [OptionMatch.absorb, hoption, hvalues]

/-- The options under each command, if none is new. -/
theorem commandOptions_entry_of_mem (h : ∀ option, reading.option? = some option →
    option ∈ report.optionIds) (command : SymbolId) :
    ((report.extend [reading]).options.filter (·.command = command)).map (·.option) =
      (report.options.filter (·.command = command)).map (·.option) := by
  rw [options_entry_of_mem h, List.filter_map, List.map_map]
  rfl

/-- The options under each command; a new one comes last under the command of its reading. -/
theorem Genuine.commandOptions_entry_of_notMem (h : report.Genuine)
    (hoption : reading.option? = some option) (hnew : option ∉ report.optionIds)
    (command : SymbolId) :
    ((report.extend [reading]).options.filter (·.command = command)).map (·.option) =
      (report.options.filter (·.command = command)).map (·.option) ++
        if reading.command = command then [option] else [] := by
  rw [h.options_entry_of_notMem hoption hnew, List.filter_map, List.map_map, List.filter_append,
    List.map_append]
  congr 1
  by_cases hcommand : reading.command = command <;> simp [OptionMatch.absorb, hcommand]

/-! ## Positional arguments -/

/-- A reading that is no value of a positional argument leaves these as they are. -/
theorem arguments_entry_of_other (h : reading.positional? = none) (command : SymbolId) :
    (report.extend [reading]).arguments command = report.arguments command := by
  have hids : (report.extend [reading]).argumentIds command = report.argumentIds command := by
    rw [argumentIds, extend, List.filterMap_filter, List.filterMap_append, argumentIds,
      List.filterMap_filter]
    simp [h]
  have hvalues : ∀ argument, reading.positionalValues argument = [] := by
    intro argument
    rw [Reading.positional?] at h
    rw [Reading.positionalValues]
    cases hmeaning : reading.meaning <;> simp_all
  rw [arguments, hids, arguments]
  apply List.map_congr_left
  intro argument _
  rw [extend, List.flatMap_append, List.flatMap_singleton, hvalues, List.append_nil]

/-- A positional argument that has no binding has no values. -/
theorem Genuine.positionalValues_eq_nil (h : report.Genuine)
    (hargument : argument ∈ report.tree.arguments command)
    (hnew : argument ∉ report.argumentIds command) :
    report.readings.flatMap (Reading.positionalValues argument) = [] := by
  rw [List.flatMap_eq_nil_iff]
  intro earlier hmem
  rw [Reading.positionalValues]
  cases hmeaning : earlier.meaning with
  | positional id =>
    refine if_neg ?_
    rintro rfl
    have hcommand := h.wellFormed.eq_of_mem_arguments
      (h.mem_arguments_of_reading hmem hmeaning) hargument
    exact hnew (mem_argumentIds.mpr ⟨earlier, hmem, hcommand, hmeaning⟩)
  | _ => rfl

/-- A value for an argument without a binding is entered in a new one. -/
theorem enter_of_notMem {bindings : List Binding} {value : Bound}
    (h : ∀ binding ∈ bindings, binding.argument ≠ argument) :
    Binding.enter argument value bindings = bindings ++ [⟨argument, [value]⟩] := by
  induction bindings with
  | nil => rfl
  | cons binding rest ih =>
    rw [List.forall_mem_cons] at h
    rw [Binding.enter, if_neg h.1, ih h.2, List.cons_append]

/-- A value for an argument with a binding is entered behind its values. -/
theorem enter_of_mem {arguments : List SymbolId} (harguments : arguments.Nodup)
    (hmem : argument ∈ arguments) (values : SymbolId → List Bound) (value : Bound) :
    Binding.enter argument value (arguments.map fun id => ⟨id, values id⟩) =
      arguments.map fun id => ⟨id, values id ++ if id = argument then [value] else []⟩ := by
  induction arguments with
  | nil => cases hmem
  | cons first rest ih =>
    rw [List.nodup_cons] at harguments
    rw [List.map_cons, List.map_cons, Binding.enter]
    by_cases hfirst : first = argument
    · subst hfirst
      rw [if_pos rfl, if_pos rfl]
      congr 1
      apply List.map_congr_left
      intro id hid
      have hne : id ≠ first := fun heq => harguments.1 (heq ▸ hid)
      rw [if_neg hne, List.append_nil]
    · have hrest : argument ∈ rest := (List.mem_cons.mp hmem).resolve_left (Ne.symm hfirst)
      rw [if_neg hfirst, if_neg hfirst, List.append_nil, ih harguments.2 hrest]

/-- Entering a value leaves the bindings of other arguments as they are. -/
theorem find?_enter_of_ne {other : SymbolId} (hne : other ≠ argument) (value : Bound)
    (bindings : List Binding) :
    (Binding.enter argument value bindings).find? (·.argument = other) =
      bindings.find? (·.argument = other) := by
  induction bindings with
  | nil => simp [Binding.enter, Ne.symm hne]
  | cons binding rest ih =>
    rw [Binding.enter]
    by_cases hbinding : binding.argument = argument
    · have hother : ¬binding.argument = other := fun heq => hne (heq.symm.trans hbinding)
      rw [if_pos hbinding, List.find?_cons_of_neg (by simpa using hother),
        List.find?_cons_of_neg (by simpa using hother)]
    · rw [if_neg hbinding, List.find?_cons, List.find?_cons, ih]

/-- Entering a value gives the argument one more. -/
theorem length_find?_enter (argument : SymbolId) (value : Bound) (bindings : List Binding) :
    ((Binding.enter argument value bindings).find? (·.argument = argument)).elim 0
        (·.values.length) =
      (bindings.find? (·.argument = argument)).elim 0 (·.values.length) + 1 := by
  induction bindings with
  | nil => simp [Binding.enter]
  | cons binding rest ih =>
    rw [Binding.enter]
    by_cases hbinding : binding.argument = argument
    · simp [hbinding]
    · simpa [hbinding] using ih

/-- A reading for a positional argument gives its text to this argument and to no other. -/
theorem positionalValues_of_meaning (hmeaning : reading.meaning = .positional argument)
    (id : SymbolId) : reading.positionalValues id =
      if id = argument then [⟨reading.text, reading.position⟩] else [] := by
  rw [Reading.positionalValues, hmeaning]
  exact if_congr eq_comm rfl rfl

/-- A reading for a positional argument binds it, behind the others if it was not bound. -/
theorem argumentIds_entry_self (hmeaning : reading.meaning = .positional argument) :
    (report.extend [reading]).argumentIds reading.command =
      if argument ∈ report.argumentIds reading.command then report.argumentIds reading.command
      else report.argumentIds reading.command ++ [argument] := by
  have hpositional : reading.positional? = some argument := by
    rw [Reading.positional?, hmeaning]
  simp only [argumentIds, extend, List.filter_append, List.mem_eraseDups]
  rw [List.filter_cons_of_pos (by simp), List.filter_nil, List.filterMap_append,
    List.filterMap_cons_some hpositional, List.filterMap_nil]
  split
  · exact Sequence.eraseDups_concat_of_mem ‹_›
  · exact Sequence.eraseDups_concat_of_notMem ‹_›

/-- A reading for a positional argument of its command enters a value there. -/
theorem Genuine.arguments_entry_self (h : report.Genuine)
    (hargument : argument ∈ report.tree.arguments reading.command)
    (hmeaning : reading.meaning = .positional argument) :
    (report.extend [reading]).arguments reading.command =
      Binding.enter argument ⟨reading.text, reading.position⟩
        (report.arguments reading.command) := by
  have hvalues : ∀ id, (report.extend [reading]).readings.flatMap (Reading.positionalValues id) =
      report.readings.flatMap (Reading.positionalValues id) ++
        if id = argument then [⟨reading.text, reading.position⟩] else [] := by
    intro id
    rw [extend, List.flatMap_append, List.flatMap_singleton, positionalValues_of_meaning hmeaning]
  rw [arguments, arguments, argumentIds_entry_self hmeaning]
  simp only [hvalues]
  by_cases hmem : argument ∈ report.argumentIds reading.command
  · rw [if_pos hmem]
    exact (enter_of_mem (Sequence.nodup_eraseDups _) hmem _ _).symm
  · rw [if_neg hmem, List.map_append, List.map_singleton, if_pos rfl,
      h.positionalValues_eq_nil hargument hmem, List.nil_append, enter_of_notMem]
    · congr 1
      apply List.map_congr_left
      intro id hid
      have hne : id ≠ argument := fun heq => hmem (heq ▸ hid)
      rw [if_neg hne, List.append_nil]
    · intro binding hbinding heq
      obtain ⟨id, hid, rfl⟩ := List.mem_map.mp hbinding
      exact hmem (heq ▸ hid)

/-- A reading for a positional argument leaves those of other commands as they are. -/
theorem Genuine.arguments_entry_of_ne (h : report.Genuine)
    (hargument : argument ∈ report.tree.arguments reading.command)
    (hmeaning : reading.meaning = .positional argument) (hne : reading.command ≠ command) :
    (report.extend [reading]).arguments command = report.arguments command := by
  have hids : (report.extend [reading]).argumentIds command = report.argumentIds command := by
    rw [argumentIds, extend, List.filter_append, List.filter_cons_of_neg (by simpa using hne),
      List.filter_nil, List.append_nil, argumentIds]
  rw [arguments, hids, arguments]
  apply List.map_congr_left
  intro id hid
  have hother : id ≠ argument := by
    rintro rfl
    exact hne (h.wellFormed.eq_of_mem_arguments hargument (h.mem_arguments hid))
  rw [extend, List.flatMap_append, List.flatMap_singleton, positionalValues_of_meaning hmeaning,
    if_neg hother, List.append_nil]

/-! ## The path -/

/-- A reading that does not descend makes no further stop. -/
theorem stops_entry_of_other (h : reading.descent? = none) :
    (report.extend [reading]).stops = report.stops := by
  rw [stops, extend, List.filterMap_append, List.filterMap_cons_none (by rw [h]; rfl),
    List.filterMap_nil, List.append_nil, stops]

/-- A reading that descends makes a stop at its command. -/
theorem stops_entry (h : reading.descent? = some command) :
    (report.extend [reading]).stops = report.stops ++ [(command, some reading.token)] := by
  have hstop : [reading].filterMap (fun reading => reading.descent?.map fun command =>
      (command, some reading.token)) = [(command, some reading.token)] := by
    simp [h]
  rw [stops, extend, List.filterMap_append, hstop, stops]
  rfl

/-- A reading that changes no command of the path leaves it as it is. -/
theorem path_entry_of_other (hdescent : reading.descent? = none)
    (hsame : ∀ command token,
      (report.extend [reading]).commandMatch command token = report.commandMatch command token) :
    (report.extend [reading]).path = report.path := by
  rw [path_eq_map_stops, path_eq_map_stops, stops_entry_of_other hdescent]
  exact List.map_congr_left fun stop _ => hsame stop.1 stop.2

/-- A reading that matches no further option and is no value of a positional argument changes no
command of the path. -/
theorem path_entry_of_inert (hdescent : reading.descent? = none)
    (hoption : ∀ option, reading.option? = some option → option ∈ report.optionIds)
    (hpositional : reading.positional? = none) :
    (report.extend [reading]).path = report.path := by
  apply path_entry_of_other hdescent
  intro command token
  rw [commandMatch, commandOptions_entry_of_mem hoption, arguments_entry_of_other hpositional,
    commandMatch]

/-- A reading that changes its own command only changes the last one of the path. -/
theorem Genuine.path_entry_of_change (h : report.Genuine) (hdescent : reading.descent? = none)
    (hcommand : reading.command = Reading.current report.start report.readings)
    {change : CommandMatch → CommandMatch}
    (hothers : ∀ command token, reading.command ≠ command →
      (report.extend [reading]).commandMatch command token = report.commandMatch command token)
    (hown : ∀ token, (report.extend [reading]).commandMatch reading.command token =
      change (report.commandMatch reading.command token)) :
    (report.extend [reading]).path = report.path.modifyLast change := by
  have hnodup := h.trace.nodup_path h.wellFormed
  have hlast := Reading.getLast?_path report.start report.readings
  rw [← map_fst_stops] at hnodup hlast
  rw [path_eq_map_stops, path_eq_map_stops, stops_entry_of_other hdescent]
  rcases report.stops.eq_nil_or_concat with hnil | ⟨before, last, hstops⟩
  · simp [hnil] at hlast
  · rw [List.concat_eq_append] at hstops
    rw [hstops, List.map_append, List.map_singleton] at hnodup hlast
    rw [List.getLast?_concat, Option.some.injEq, ← hcommand] at hlast
    rw [hstops, List.map_append, List.map_append, List.map_singleton, List.map_singleton,
      List.modifyLast_concat, hlast, hown]
    congr 1
    apply List.map_congr_left
    intro stop hstop
    apply hothers
    rintro heq
    rw [List.nodup_append] at hnodup
    refine hnodup.2.2 stop.1 (List.mem_map_of_mem hstop) last.1 List.mem_cons_self ?_
    rw [← heq, hlast]

/-- A reading that names an option for the first time puts it under the last command. -/
theorem Genuine.path_entry_of_option (h : report.Genuine)
    (hcommand : reading.command = Reading.current report.start report.readings)
    {inline : List String} (hmeaning : reading.meaning = .option option inline)
    (hnew : option ∉ report.optionIds) :
    (report.extend [reading]).path = report.path.modifyLast fun found =>
      { found with options := found.options ++ [option] } := by
  have hoption : reading.option? = some option := by
    rw [Reading.option?, hmeaning]
  have hpositional : reading.positional? = none := by
    rw [Reading.positional?, hmeaning]
  apply h.path_entry_of_change (by rw [Reading.descent?, hmeaning]) hcommand
  · intro command token hne
    rw [commandMatch, h.commandOptions_entry_of_notMem hoption hnew, if_neg hne, List.append_nil,
      arguments_entry_of_other hpositional, commandMatch]
  · intro token
    rw [commandMatch, h.commandOptions_entry_of_notMem hoption hnew, if_pos rfl,
      arguments_entry_of_other hpositional, commandMatch]

/-- A reading for a positional argument enters a value under the last command. -/
theorem Genuine.path_entry_of_positional (h : report.Genuine)
    (hcommand : reading.command = Reading.current report.start report.readings)
    (hmeaning : reading.meaning = .positional argument)
    (hargument : argument ∈ report.tree.arguments reading.command) :
    (report.extend [reading]).path = report.path.modifyLast fun found =>
      { found with
        arguments := Binding.enter argument ⟨reading.text, reading.position⟩ found.arguments } := by
  have hoptions : (report.extend [reading]).options = report.options :=
    options_entry_of_other (by rw [Reading.option?, hmeaning])
      fun option => by rw [Reading.optionValues, hmeaning]
  apply h.path_entry_of_change (by rw [Reading.descent?, hmeaning]) hcommand
  · intro command token hne
    rw [commandMatch, hoptions, h.arguments_entry_of_ne hargument hmeaning hne, commandMatch]
  · intro token
    rw [commandMatch, hoptions, h.arguments_entry_self hargument hmeaning, commandMatch]

/-- An option was matched under a command of the path. -/
theorem Genuine.command_mem_path_of_option (h : report.Genuine) {found : OptionMatch}
    (hfound : found ∈ report.options) :
    found.command ∈ Reading.path report.start report.readings := by
  obtain ⟨option, -, rfl⟩ := List.mem_map.mp hfound
  rw [optionMatch]
  cases hfirst : (report.occurrences option).head? with
  | none => exact List.mem_cons_self
  | some first =>
    exact h.trace.command_mem_path (List.mem_of_mem_filter (List.mem_of_head? hfirst))

/-- A command that is not on the path has no values. -/
theorem Genuine.arguments_eq_nil (h : report.Genuine)
    (hnew : command ∉ Reading.path report.start report.readings) :
    report.arguments command = [] := by
  have hids : report.argumentIds command = [] := by
    rw [List.eq_nil_iff_forall_not_mem]
    intro id hid
    obtain ⟨earlier, hmem, rfl, -⟩ := mem_argumentIds.mp hid
    exact hnew (h.trace.command_mem_path hmem)
  rw [arguments, hids]
  rfl

/-- A reading that descends puts a command without options and arguments at the end of the path. -/
theorem Genuine.path_entry_of_descent (h : report.Genuine)
    (hmeaning : reading.meaning = .command command)
    (hnew : command ∉ Reading.path report.start report.readings) :
    (report.extend [reading]).path = report.path ++ [⟨command, some reading.token, [], []⟩] := by
  have hdescent : reading.descent? = some command := by
    rw [Reading.descent?, hmeaning]
  have hoptions : (report.extend [reading]).options = report.options :=
    options_entry_of_other (by simp [Reading.option?, hmeaning])
      fun option => by simp [Reading.optionValues, hmeaning]
  have hpositional : reading.positional? = none := by
    rw [Reading.positional?, hmeaning]
  have hsame : ∀ id token,
      (report.extend [reading]).commandMatch id token = report.commandMatch id token := by
    intro id token
    rw [commandMatch, hoptions, arguments_entry_of_other hpositional, commandMatch]
  have hfresh : ∀ token, report.commandMatch command token = ⟨command, token, [], []⟩ := by
    intro token
    have hnone : report.options.filter (·.command = command) = [] := by
      rw [List.filter_eq_nil_iff]
      intro found hfound heq
      rw [decide_eq_true_eq] at heq
      exact hnew (heq ▸ h.command_mem_path_of_option hfound)
    rw [commandMatch, hnone, h.arguments_eq_nil hnew]
    rfl
  rw [path_eq_map_stops, path_eq_map_stops, stops_entry hdescent, List.map_append,
    List.map_singleton, hsame, hfresh]
  congr 1
  exact List.map_congr_left fun stop _ => hsame stop.1 stop.2

end Report

end CommandLine
