import CommandLine.Proofs.Report.Isolation
import CommandLine.Proofs.Report.Bindings
import Mathlib.Data.List.Infix

/-!
# Reading on

A command line can be read before all of it is there. What the report of a beginning says about
tokens is never taken back by what follows: the report of the whole begins with the same commands,
options and tokens, and an argument that was given values keeps them in front of those it is given
later. So does an option that still takes values where the beginning ends.

What is said about the end of a command line is left out: numbers of values, conversions, and what
was not given.
-/

namespace CommandLine

variable {β : Type}

/-! ## Lists that go on -/

namespace Sequence

variable {A B : Type}

/-- A list in which each place of another one is taken by a member that goes on from its member. -/
def GoesOn (R : B → B → Prop) (first second : List B) : Prop :=
  ∀ (place : ℕ) (member : B), first[place]? = some member →
    ∃ later, second[place]? = some later ∧ R member later

/-- Erasing repeats from a list begins with erasing them from a beginning. -/
theorem eraseDups_isPrefix [DecidableEq A] {first second : List A} (h : first <+: second) :
    first.eraseDups <+: second.eraseDups := by
  obtain ⟨rest, rfl⟩ := h
  rw [List.eraseDups_append]
  exact List.prefix_append _ _

/-- What is made of a list goes on from what is made of a beginning, member by member. -/
theorem goesOn_map {R : B → B → Prop} {make remake : A → B} {first second : List A}
    (h : first <+: second) (hmake : ∀ value ∈ first, R (make value) (remake value)) :
    GoesOn R (first.map make) (second.map remake) := by
  obtain ⟨rest, rfl⟩ := h
  intro place member hmember
  rw [List.getElem?_map, Option.map_eq_some_iff] at hmember
  obtain ⟨value, hvalue, rfl⟩ := hmember
  refine ⟨remake value, ?_, hmake value (List.mem_of_getElem? hvalue)⟩
  rw [List.getElem?_map, List.getElem?_append_left (List.getElem?_eq_some_iff.mp hvalue).1, hvalue]
  rfl

end Sequence

/-! ## Reports that go on -/

/-- A binding whose values go on from those of another one. -/
structure Binding.Begins (first second : Binding) : Prop where
  argument : second.argument = first.argument
  values : first.values <+: second.values

/-- A matched option with the same first occurrence, and maybe more occurrences and values. -/
structure OptionMatch.Begins (first second : OptionMatch) : Prop where
  option : second.option = first.option
  command : second.command = first.command
  tokens : first.tokens <+: second.tokens
  binding : first.binding.Begins second.binding

/-- The same command of a path, with maybe more options and values. -/
structure CommandMatch.Begins (first second : CommandMatch) : Prop where
  command : second.command = first.command
  token : second.token = first.token
  options : first.options <+: second.options
  arguments : Sequence.GoesOn Binding.Begins first.arguments second.arguments

namespace Report

/-- The values of an argument, none if it has no binding. -/
def valuesOf (report : Report β) (argument : SymbolId) : List Bound :=
  (report.binding? argument).elim [] (·.values)

/-- The errors about tokens that match nothing, among all errors. -/
def unrecognizedAmong (report : Report β) : List ParseError :=
  report.errors.filter (·.kind = .unrecognizedToken)

/-- A report that takes nothing back of what another one says about tokens. -/
structure Begins (first second : Report β) : Prop where
  tokens : first.tokens <+: second.tokens
  unmatched : first.unmatched <+: second.unmatched
  unrecognized : first.unrecognizedAmong <+: second.unrecognizedAmong
  path : Sequence.GoesOn CommandMatch.Begins first.path second.path
  options : Sequence.GoesOn OptionMatch.Begins first.options second.options
  values : ∀ argument, first.valuesOf argument <+: second.valuesOf argument

variable {report : Report β} {tail : List Reading} {option argument command : SymbolId}

/-! ## Errors about tokens -/

/-- The errors about tokens that match nothing are of this kind. -/
theorem kind_of_mem_unrecognizedErrors {error : ParseError} (h : error ∈ report.unrecognizedErrors) :
    error.kind = .unrecognizedToken := by
  obtain ⟨reading, -, herror⟩ := List.mem_filterMap.mp h
  unfold unrecognized? at herror
  split at herror <;> cases herror
  rfl

/-- The error that a binding ends with is about the number of its values or about their
conversion. -/
theorem kind_of_bindingError? {owner : Owner} {position : Option ℕ} {binding : Binding}
    {error : ParseError} (h : report.bindingError? owner position binding = some error) :
    error.kind = .arityViolation ∨ error.kind = .conversionFailure := by
  unfold bindingError? at h
  split at h
  · cases h
  · split at h <;> cases h
    · exact .inl rfl
    · exact .inl rfl
    · exact .inr rfl

/-- The error about a positional argument that was given nothing is about a number of values. -/
theorem kind_of_missingArgument? {found : CommandMatch} {error : ParseError}
    (h : report.missingArgument? found argument = some error) : error.kind = .arityViolation := by
  unfold missingArgument? at h
  split at h
  · cases h
  · split at h <;> cases h
    rfl

/-- A rejection is of its own kind. -/
theorem kind_of_mem_rejections {validators : List Validator} {candidate : Candidate}
    {position : Option ℕ} {error : ParseError}
    (h : error ∈ rejections validators candidate position) : error.kind = .validationFailure := by
  obtain ⟨validator, -, herror⟩ := List.mem_filterMap.mp h
  obtain ⟨complaint, -, rfl⟩ := Option.map_eq_some_iff.mp herror
  rfl

/-- What is wrong with values is their number or their conversion. -/
theorem kind_of_mem_bindingErrors {error : ParseError} (h : error ∈ report.bindingErrors) :
    error.kind = .arityViolation ∨ error.kind = .conversionFailure := by
  rw [bindingErrors, List.mem_append, List.mem_filterMap, List.mem_flatMap] at h
  rcases h with ⟨found, -, herror⟩ | ⟨found, -, herror⟩
  · exact kind_of_bindingError? herror
  · rw [argumentErrors, List.mem_append, List.mem_filterMap, List.mem_filterMap] at herror
    rcases herror with ⟨binding, -, herror⟩ | ⟨argument, -, herror⟩
    · exact kind_of_bindingError? herror
    · exact .inl (kind_of_missingArgument? herror)

/-- What validators find are rejections. -/
theorem kind_of_mem_validationErrors {error : ParseError} (h : error ∈ report.validationErrors) :
    error.kind = .validationFailure := by
  rw [validationErrors, List.mem_append, List.mem_flatMap, List.mem_flatMap] at h
  rcases h with ⟨found, -, herror⟩ | ⟨binding, -, herror⟩
  · rw [optionRejections] at herror
    split at herror
    · cases herror
    · exact kind_of_mem_rejections herror
  · rw [argumentRejections] at herror
    split at herror
    · cases herror
    · exact kind_of_mem_rejections herror

/-- What was not given is an option or a subcommand. -/
theorem kind_of_mem_omissionErrors {error : ParseError} (h : error ∈ report.omissionErrors) :
    error.kind = .missingRequiredOption ∨ error.kind = .missingRequiredCommand := by
  rw [omissionErrors, List.mem_append, List.mem_filterMap, Option.mem_toList] at h
  rcases h with ⟨option, -, herror⟩ | herror
  · unfold missingOption? at herror
    split at herror <;> cases herror
    exact .inl rfl
  · unfold missingCommand? at herror
    dsimp only at herror
    split at herror <;> cases herror
    exact .inr rfl

/-- The errors about tokens that match nothing are the first ones. -/
theorem unrecognizedAmong_eq (report : Report β) :
    report.unrecognizedAmong = report.unrecognizedErrors := by
  have hnone : ∀ errors : List ParseError, (∀ error ∈ errors, error.kind ≠ .unrecognizedToken) →
      errors.filter (·.kind = .unrecognizedToken) = [] := by
    intro errors herrors
    rw [List.filter_eq_nil_iff]
    intro error hmem
    simpa using herrors error hmem
  have hbinding : ∀ error ∈ report.bindingErrors, error.kind ≠ .unrecognizedToken := by
    intro error herror
    rcases kind_of_mem_bindingErrors herror with hkind | hkind <;> simp [hkind]
  have hvalidation : ∀ error ∈ report.validationErrors, error.kind ≠ .unrecognizedToken := by
    intro error herror
    simp [kind_of_mem_validationErrors herror]
  have homission : ∀ error ∈ report.omissionErrors, error.kind ≠ .unrecognizedToken := by
    intro error herror
    rcases kind_of_mem_omissionErrors herror with hkind | hkind <;> simp [hkind]
  rw [unrecognizedAmong, errors, List.filter_append, List.filter_append, List.filter_append,
    hnone _ hbinding, hnone _ hvalidation, hnone _ homission, List.append_nil, List.append_nil,
    List.append_nil, List.filter_eq_self]
  exact fun error herror => decide_eq_true (kind_of_mem_unrecognizedErrors herror)

/-! ## What more readings add -/

/-- The readings of a report come first in the report with more of them. -/
theorem readings_isPrefix (report : Report β) (tail : List Reading) :
    report.readings <+: (report.extend tail).readings :=
  List.prefix_append _ _

/-- The commands of the path with the tokens that named them. -/
def stops (report : Report β) : List (SymbolId × Option Token) :=
  (report.start, none) :: report.readings.filterMap fun reading =>
    reading.descent?.map fun command => (command, some reading.token)

/-- The path in terms of its commands and their tokens. -/
theorem path_eq_map_stops (report : Report β) :
    report.path = report.stops.map fun stop => report.commandMatch stop.1 stop.2 := by
  rw [path, stops, List.map_cons, List.map_filterMap]
  congr 1
  apply List.filterMap_congr
  intro reading _
  rw [Option.map_map]
  rfl

/-- The commands of the stops are those of the path. -/
theorem map_fst_stops (report : Report β) :
    report.stops.map (·.1) = Reading.path report.start report.readings := by
  rw [← map_command_path, path_eq_map_stops, List.map_map]
  rfl

/-- More readings put more matched options behind those that were matched. -/
theorem optionIds_isPrefix (report : Report β) (tail : List Reading) :
    report.optionIds <+: (report.extend tail).optionIds :=
  Sequence.eraseDups_isPrefix ((report.readings_isPrefix tail).filterMap _)

/-- More readings put more positional arguments behind those that were given values. -/
theorem argumentIds_isPrefix (report : Report β) (tail : List Reading) (command : SymbolId) :
    report.argumentIds command <+: (report.extend tail).argumentIds command :=
  Sequence.eraseDups_isPrefix
    (((report.readings_isPrefix tail).filter _).filterMap Reading.positional?)

/-- More readings leave the first occurrence of a matched option, and add to what it has. -/
theorem optionMatch_begins (hoption : option ∈ report.optionIds) (tail : List Reading) :
    (report.optionMatch option).Begins ((report.extend tail).optionMatch option) := by
  have hoccurrences : report.occurrences option <+: (report.extend tail).occurrences option :=
    (report.readings_isPrefix tail).filter _
  have hne : report.occurrences option ≠ [] := by
    obtain ⟨reading, hmem, hreading⟩ := List.mem_filterMap.mp (mem_optionIds.mp hoption)
    exact List.ne_nil_of_mem (List.mem_filter.mpr ⟨hmem, by simpa using hreading⟩)
  have hhead : ((report.extend tail).occurrences option).head? =
      (report.occurrences option).head? := by
    obtain ⟨rest, hrest⟩ := hoccurrences
    rw [← hrest, List.head?_append_of_ne_nil _ hne]
  refine ⟨rfl, ?_, hoccurrences.map _, rfl, (report.readings_isPrefix tail).flatMap _⟩
  simp only [optionMatch, hhead]
  rfl

/-- More readings keep the matched options, each with its first occurrence. -/
theorem options_goesOn (report : Report β) (tail : List Reading) :
    Sequence.GoesOn OptionMatch.Begins report.options (report.extend tail).options :=
  Sequence.goesOn_map (report.optionIds_isPrefix tail) fun _ hoption =>
    optionMatch_begins hoption tail

/-- The matched options with their commands come first among those of more readings. -/
theorem options_isPrefix (report : Report β) (tail : List Reading) :
    report.options.map (fun found => (found.option, found.command)) <+:
      (report.extend tail).options.map fun found => (found.option, found.command) := by
  obtain ⟨more, hmore⟩ := report.optionIds_isPrefix tail
  rw [options, options, ← hmore, List.map_append, List.map_append, List.map_map, List.map_map]
  have hsame : report.optionIds.map
        ((fun found => (found.option, found.command)) ∘ (report.extend tail).optionMatch) =
      report.optionIds.map ((fun found => (found.option, found.command)) ∘ report.optionMatch) := by
    apply List.map_congr_left
    intro option hoption
    have hbegins := optionMatch_begins hoption tail
    exact Prod.ext hbegins.option hbegins.command
  rw [hsame]
  exact List.prefix_append _ _

/-- More readings add to what a command of the path has. -/
theorem commandMatch_begins (report : Report β) (tail : List Reading) (command : SymbolId)
    (token : Option Token) :
    (report.commandMatch command token).Begins ((report.extend tail).commandMatch command token) := by
  refine ⟨rfl, rfl, ?_, ?_⟩
  · have hpairs := ((report.options_isPrefix tail).filter (·.2 = command)).map Prod.fst
    rwa [List.filter_map, List.filter_map, List.map_map, List.map_map] at hpairs
  · exact Sequence.goesOn_map (report.argumentIds_isPrefix tail command) fun argument _ =>
      ⟨rfl, (report.readings_isPrefix tail).flatMap _⟩

/-- More readings keep the path, and add to what its commands have. -/
theorem path_goesOn (report : Report β) (tail : List Reading) :
    Sequence.GoesOn CommandMatch.Begins report.path (report.extend tail).path := by
  rw [path_eq_map_stops, path_eq_map_stops]
  refine Sequence.goesOn_map ?_ fun stop _ => report.commandMatch_begins tail stop.1 stop.2
  exact (List.prefix_cons_inj _).mpr ((report.readings_isPrefix tail).filterMap _)

/-- The values of an argument are what the readings give to it, bound or not. -/
theorem Genuine.valuesOf_eq (h : report.Genuine) (argument : SymbolId) :
    report.valuesOf argument = report.readings.flatMap fun reading =>
      if report.holder? reading = some argument then reading.given else [] := by
  rw [valuesOf]
  cases hfind : report.binding? argument with
  | some binding =>
    obtain ⟨hbinding, rfl⟩ := of_binding?_eq_some hfind
    exact h.values_eq hbinding
  | none =>
    -- Without a binding no reading gives the argument anything.
    symm
    rw [Option.elim_none, List.flatMap_eq_nil_iff]
    intro reading hmem
    by_cases hgiven : reading.given = []
    · simp [hgiven]
    · obtain ⟨other, hother, hholder⟩ := h.exists_holder hmem hgiven
      obtain ⟨binding, hbinding, rfl⟩ := List.mem_map.mp hother
      rw [if_neg]
      intro hsame
      obtain rfl := Option.some.inj (hholder.symm.trans hsame)
      simp [h.binding?_of_mem hbinding] at hfind

/-- A report takes nothing back of what a genuine report with fewer readings says. -/
theorem Genuine.begins (h : report.Genuine) (hextended : (report.extend tail).Genuine) :
    report.Begins (report.extend tail) := by
  have hunmatched : report.unmatchedReadings <+: (report.extend tail).unmatchedReadings :=
    (report.readings_isPrefix tail).filter _
  refine ⟨(report.readings_isPrefix tail).map _, hunmatched.map _, ?_, report.path_goesOn tail,
    report.options_goesOn tail, ?_⟩
  · rw [unrecognizedAmong_eq, unrecognizedAmong_eq]
    exact hunmatched.filterMap _
  · intro argument
    rw [h.valuesOf_eq, hextended.valuesOf_eq]
    exact (report.readings_isPrefix tail).flatMap _

end Report

/-! ## Command lines that go on -/

namespace CommandTree

variable {tree : CommandTree β} {config : Config} {start : SymbolId}

/-- The report of a command line goes on from the report of its beginning. -/
theorem exists_report_append (before after : List String) :
    ∃ tail, tree.report config start (before ++ after) =
      (tree.report config start before).extend tail := by
  obtain ⟨tail, htail⟩ := Cursor.readings_isPrefix_foldl_step (Setting.of tree config)
    (tree.cursorAfter config start before) after
  refine ⟨tail, ?_⟩
  rw [report, cursorAfter, List.foldl_append]
  exact congrArg (Report.mk (Setting.of tree config) start) htail.symm

/-- From a command of a reachable tree, with delimiters of one byte, a command line and its
beginning are both parsed, and nothing that is said about the tokens of the beginning is taken
back. -/
theorem exists_begins_append (h : Reachable tree) (hstart : (tree.command? start).isSome)
    (hdelimiters : ∀ d ∈ config.inlineDelimiters, d.utf8Size = 1) (before after : List String) :
    ∃ first second, tree.parse config start before = .ok first ∧
      tree.parse config start (before ++ after) = .ok second ∧ first.Begins second := by
  have hparse := @parse_eq_report β tree config start (isSome_symbol?_of_command? hstart) hdelimiters
  obtain ⟨tail, htail⟩ := @exists_report_append β tree config start before after
  refine ⟨_, _, hparse before, hparse (before ++ after), ?_⟩
  have hextended := @WellFormed.genuine β tree config start h.wellFormed (before ++ after)
  rw [htail] at hextended ⊢
  exact (h.wellFormed.genuine before).begins hextended

/-- A beginning that ends behind an option which takes more values. -/
theorem exists_begins_append_sample :
    ∃ first second, sample.parse {} root ["build", "--tag", "a"] = .ok first ∧
      sample.parse {} root (["build", "--tag", "a"] ++ ["b", "7", "--", "8"]) = .ok second ∧
      first.Begins second :=
  exists_begins_append reachable_sample (by decide) Config.utf8Size_eq_one _ _

end CommandTree

end CommandLine
