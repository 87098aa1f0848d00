import CommandLine.Proofs.Reading.Descent
import CommandLine.Proofs.Report.Symbols
import CommandLine.Report.Diagnosis
import CommandLine.Report.Origin
import CommandLine.Report.Selection

/-!
# Reports from a command further down

A command line can be parsed from the root, or without its first names from the command that they
lead to. Both reports say the same of what follows the names, at positions that differ by their
number: the same options and values, the same positional arguments of the last command named and of
those below it, the same actions.

The commands that are passed on the way have no options and no values. They show in the errors only,
and only if one of their positional arguments needs a value.
-/

namespace CommandLine

variable {β : Type}

/-! ## Positions -/

/-- The token with a number of tokens in front. -/
def Token.shift (count : ℕ) (token : Token) : Token :=
  { token with position := token.position + count }

/-- The raw value with a number of tokens in front. -/
def Bound.shift (count : ℕ) (value : Bound) : Bound :=
  { value with position := value.position + count }

/-- The binding with a number of tokens in front. -/
def Binding.shift (count : ℕ) (binding : Binding) : Binding :=
  { binding with values := binding.values.map (Bound.shift count) }

/-- The matched option with a number of tokens in front. -/
def OptionMatch.shift (count : ℕ) (found : OptionMatch) : OptionMatch :=
  { found with
    tokens := found.tokens.map (Token.shift count), binding := found.binding.shift count }

/-- The command on a path with a number of tokens in front. -/
def CommandMatch.shift (count : ℕ) (found : CommandMatch) : CommandMatch :=
  { found with
    token := found.token.map (Token.shift count)
    arguments := found.arguments.map (Binding.shift count) }

/-- The command on a path as if no token had named it. -/
def CommandMatch.unnamed (found : CommandMatch) : CommandMatch := { found with token := none }

/-- What an error says of which symbol: everything but its place. -/
def ParseError.gist (error : ParseError) : ErrorKind × String × Option String × Option SymbolId :=
  (error.kind, error.message, error.suggestion?, error.symbol)

/-- What a binding says, wherever its values stand. -/
def Binding.gist (binding : Binding) : SymbolId × List String := (binding.argument, binding.raws)

/-- What a matched option says, wherever it was given: the option, the command where it was given
first, its argument and its raw values. -/
def OptionMatch.gist (found : OptionMatch) : SymbolId × SymbolId × SymbolId × List String :=
  (found.option, found.command, found.binding.gist)

/-- Positions do not matter to the texts of values. -/
@[simp] theorem Binding.raws_shift (count : ℕ) (binding : Binding) :
    (binding.shift count).raws = binding.raws := List.map_map

/-- Positions do not matter to what a binding says. -/
theorem Binding.gist_shift (count : ℕ) (binding : Binding) :
    (binding.shift count).gist = binding.gist :=
  Prod.ext rfl (binding.raws_shift count)

namespace Reading

variable {reading : Reading}

/-- A reading in front of which there are tokens gives its values at later positions. -/
theorem optionValues_shift (count : ℕ) (option : SymbolId) (reading : Reading) :
    (reading.shift count).optionValues option =
      (reading.optionValues option).map (Bound.shift count) := by
  cases hmeaning : reading.meaning <;> simp only [optionValues, shift, hmeaning] <;> try rfl
  all_goals split <;> simp [Bound.shift]

/-- A reading in front of which there are tokens gives its values at later positions. -/
theorem positionalValues_shift (count : ℕ) (argument : SymbolId) (reading : Reading) :
    (reading.shift count).positionalValues argument =
      (reading.positionalValues argument).map (Bound.shift count) := by
  cases hmeaning : reading.meaning <;> simp only [positionalValues, shift, hmeaning] <;> try rfl
  split <;> rfl

namespace Descends

/-- A name is not unmatched. -/
theorem ne_unmatched (h : reading.Descends) : reading.meaning ≠ .unmatched := by
  obtain ⟨id, hmeaning⟩ := h
  simp [hmeaning]

/-- A name is no occurrence of an option. -/
theorem option?_eq_none (h : reading.Descends) : reading.option? = none := by
  obtain ⟨id, hmeaning⟩ := h
  simp [option?, hmeaning]

/-- A name gives no value to an option. -/
theorem optionValues_eq_nil (h : reading.Descends) (option : SymbolId) :
    reading.optionValues option = [] := by
  obtain ⟨id, hmeaning⟩ := h
  simp [optionValues, hmeaning]

/-- A name is not a value of a positional argument. -/
theorem positional?_eq_none (h : reading.Descends) : reading.positional? = none := by
  obtain ⟨id, hmeaning⟩ := h
  simp [positional?, hmeaning]

/-- A name gives no value to a positional argument. -/
theorem positionalValues_eq_nil (h : reading.Descends) (argument : SymbolId) :
    reading.positionalValues argument = [] := by
  obtain ⟨id, hmeaning⟩ := h
  simp [positionalValues, hmeaning]

end Descends

end Reading

namespace Report

/-! ## Reports of a command line and of its rest -/

/-- A report of a command line that begins with the names of subcommands, and a report of the rest
from the last of them on. The commands that are passed on the way are all but the last. -/
structure Extends (first second : Report β) (passed : List SymbolId) (count : ℕ) : Prop where
  terminal : first.terminal = second.terminal
  commands : first.path.map (·.command) = passed ++ second.path.map (·.command)
  /-- The first report has a token for the name of the command that the second one starts from. -/
  path : (first.path.drop count).modifyHead CommandMatch.unnamed =
    second.path.map (CommandMatch.shift count)
  options : first.options = second.options.map (OptionMatch.shift count)
  /-- What becomes of raw values, conversions included. -/
  settle : ∀ binding ∈ second.bindings,
    first.settle (binding.shift count) = second.settle binding
  bindings : first.bindings = second.bindings.map (Binding.shift count)
  tokens : first.tokens.drop count = second.tokens.map (Token.shift count)
  unmatched : first.unmatched = second.unmatched.map (Token.shift count)
  selection : first.selection = second.selection
  action? : first.action? = second.action?
  actionsAhead : first.actionsAhead = second.actionsAhead
  valueOf : ∀ id, first.valueOf id = second.valueOf id
  /-- The errors are those of the second report, apart from places and order, and others about
  unbound positional arguments of the commands that were passed. -/
  errors : ∃ unbound,
    (first.errors.map ParseError.gist).Perm ((second.errors ++ unbound).map ParseError.gist) ∧
      ∀ error ∈ unbound, error.kind = .arityViolation ∧
        ∃ command ∈ passed, ∃ argument ∈ first.tree.arguments command,
          error.symbol = some argument ∧ first.binding? argument = none

/-! ## What is said of values, wherever they stand -/

/-- The place of a rejection does not matter to what it says. -/
theorem gist_rejections (validators : List Validator) (candidate : Candidate)
    (place other : Option ℕ) :
    (rejections validators candidate place).map ParseError.gist =
      (rejections validators candidate other).map ParseError.gist := by
  rw [rejections, rejections, List.map_filterMap, List.map_filterMap]
  refine List.filterMap_congr fun validator _ => ?_
  cases validator candidate <;> rfl

section Gists

variable {first second : Report β} (htree : first.tree = second.tree)

include htree

/-- What becomes of values depends on what their binding says. -/
theorem settle_congr {binding other : Binding} (hgist : binding.gist = other.gist) :
    first.settle binding = second.settle other := by
  obtain ⟨hargument, hraws⟩ := Prod.mk.inj hgist
  rw [settle, settle, htree, hargument, hraws]

/-- So does what is wrong with them, wherever that is placed. -/
theorem gist_bindingError?_congr {binding other : Binding} (hgist : binding.gist = other.gist)
    (owner : Owner) (place elsewhere : Option ℕ) :
    (first.bindingError? owner place binding).map ParseError.gist =
      (second.bindingError? owner elsewhere other).map ParseError.gist := by
  obtain ⟨hargument, hraws⟩ := Prod.mk.inj hgist
  have hlength : binding.values.length = other.values.length := by
    rw [← binding.length_raws, hraws, other.length_raws]
  rw [bindingError?, bindingError?, htree, hargument, hraws, hlength]
  cases second.tree.argument? other.argument with
  | none => rfl
  | some node =>
    dsimp only
    rcases node.settle other.raws with _ | _ | _ | (_ | _) <;> rfl

/-- What is wrong with the values of an option depends on what is said of it. -/
theorem gist_optionBindingError?_congr {found other : OptionMatch}
    (hoption : found.option = other.option) (hgist : found.binding.gist = other.binding.gist) :
    (first.optionBindingError? found).map ParseError.gist =
      (second.optionBindingError? other).map ParseError.gist := by
  rw [optionBindingError?, optionBindingError?, htree, hoption]
  exact gist_bindingError?_congr htree hgist _ _ _

/-- The same values of an option are rejected, wherever they stand. -/
theorem gist_optionRejections_congr {found other : OptionMatch}
    (hoption : found.option = other.option) (hgist : found.binding.gist = other.binding.gist) :
    (first.optionRejections found).map ParseError.gist =
      (second.optionRejections other).map ParseError.gist := by
  have hsettle := settle_congr htree hgist
  obtain ⟨hargument, hraws⟩ := Prod.mk.inj hgist
  rw [optionRejections, optionRejections, hsettle, htree, hoption, hargument, hraws]
  cases (second.settle other.binding).value? with
  | none => rfl
  | some value => exact gist_rejections _ _ _ _

/-- The same values of a positional argument are rejected, wherever they stand. -/
theorem gist_argumentRejections_congr {binding other : Binding}
    (hgist : binding.gist = other.gist) :
    (first.argumentRejections binding).map ParseError.gist =
      (second.argumentRejections other).map ParseError.gist := by
  have hsettle := settle_congr htree hgist
  obtain ⟨hargument, hraws⟩ := Prod.mk.inj hgist
  rw [argumentRejections, argumentRejections, hsettle, htree, hargument, hraws]
  cases (second.settle other).value? with
  | none => rfl
  | some value => exact gist_rejections _ _ _ _

/-- The value of a symbol comes from the raw values of its argument. -/
theorem origin_congr (hraws : ∀ argument,
      (first.binding? argument).map Binding.raws = (second.binding? argument).map Binding.raws)
    (id : SymbolId) : first.origin id = second.origin id := by
  have hargument : ∀ argument, first.argumentOrigin argument = second.argumentOrigin argument := by
    intro argument
    rw [argumentOrigin, argumentOrigin, htree]
    cases second.tree.argument? argument with
    | none => rfl
    | some node =>
      have hsettle := congrArg (Option.map node.settle) (hraws argument)
      simp only [Option.map_map, Function.comp_def] at hsettle
      simp only [hsettle]
  rw [origin, origin, htree]
  simp only [hargument]

/-- What is selected depends on the matched options in order and on the deepest command. -/
theorem selection_congr (hids : first.optionIds = second.optionIds)
    (hterminal : first.terminal = second.terminal) : first.selection = second.selection := by
  rw [selection, selection, actingOptions, actingOptions, htree, hids, hterminal]

/-- What is selected does the same. -/
theorem actions_congr (hselection : first.selection = second.selection) :
    first.action? = second.action? ∧ first.actionsAhead = second.actionsAhead := by
  rw [Report.action?, Report.action?, actionsAhead, actionsAhead, hselection, htree]
  exact ⟨rfl, rfl⟩

end Gists

/-- What is missing depends on which options are matched and on the deepest command. -/
theorem omissionErrors_congr {first second : Report β} (hsetting : first.setting = second.setting)
    (hids : ∀ option, option ∈ first.optionIds ↔ option ∈ second.optionIds)
    (hterminal : first.terminal = second.terminal) :
    first.omissionErrors = second.omissionErrors := by
  have htree : first.tree = second.tree := congrArg Setting.tree hsetting
  have hoption : first.missingOption? = second.missingOption? := by
    funext option
    simp only [missingOption?, htree, hids]
  rw [omissionErrors, omissionErrors, hsetting, hterminal, hoption, missingCommand?,
    missingCommand?, htree]

/-! ## Names in front -/

/-- The command on the path that a reading names. -/
def named? (report : Report β) (reading : Reading) : Option CommandMatch :=
  reading.descent?.map fun command => report.commandMatch command (some reading.token)

/-- Two reports of which the first has readings of names in front of the readings of the second. -/
structure Leading (first second : Report β) (lead : List Reading) (passed : List SymbolId) :
    Prop where
  first_genuine : first.Genuine
  second_genuine : second.Genuine
  setting : first.setting = second.setting
  readings : first.readings = lead ++ second.readings.map (Reading.shift lead.length)
  descends : ∀ reading ∈ lead, reading.Descends
  path : Reading.path first.start lead = passed ++ [second.start]

namespace Leading

variable {first second : Report β} {lead : List Reading} {passed : List SymbolId}
  {command option : SymbolId} {binding : Binding}

/-- Both reports are about one tree. -/
theorem tree (h : first.Leading second lead passed) : first.tree = second.tree :=
  congrArg Setting.tree h.setting

/-- What names have no part in is the same. -/
theorem filterMap_readings (h : first.Leading second lead passed) {A : Type}
    (view : Reading → Option A) (hlead : ∀ reading ∈ lead, view reading = none)
    (hshift : ∀ reading, view (reading.shift lead.length) = view reading) :
    first.readings.filterMap view = second.readings.filterMap view := by
  rw [h.readings, List.filterMap_append, List.filterMap_eq_nil_iff.mpr hlead, List.nil_append,
    List.filterMap_map]
  exact List.filterMap_congr fun reading _ => hshift reading

/-- Readings that are not of names are the same at later positions. -/
theorem filter_readings (h : first.Leading second lead passed) (p : Reading → Bool)
    (hlead : ∀ reading ∈ lead, p reading = false)
    (hshift : ∀ reading, p (reading.shift lead.length) = p reading) :
    first.readings.filter p = (second.readings.filter p).map (Reading.shift lead.length) := by
  have hnone : lead.filter p = [] := by
    rw [List.filter_eq_nil_iff]
    exact fun reading hmem => by simp [hlead reading hmem]
  rw [h.readings, List.filter_append, hnone, List.nil_append, List.filter_map]
  congr 1
  exact List.filter_congr fun reading _ => hshift reading

/-- Values that names do not give are the same at later positions. -/
theorem flatMap_readings (h : first.Leading second lead passed) (values : Reading → List Bound)
    (hlead : ∀ reading ∈ lead, values reading = [])
    (hshift : ∀ reading, values (reading.shift lead.length) =
      (values reading).map (Bound.shift lead.length)) :
    first.readings.flatMap values =
      (second.readings.flatMap values).map (Bound.shift lead.length) := by
  rw [h.readings, List.flatMap_append, List.flatMap_eq_nil_iff.mpr hlead, List.nil_append,
    List.flatMap_map, List.map_flatMap]
  exact List.flatMap_congr fun reading _ => hshift reading

/-! ## Options -/

/-- The same options are matched. -/
theorem optionIds_eq (h : first.Leading second lead passed) :
    first.optionIds = second.optionIds := by
  have hlead : ∀ reading ∈ lead, reading.option? = none :=
    fun reading hmem => (h.descends reading hmem).option?_eq_none
  rw [optionIds, optionIds, h.filterMap_readings _ hlead fun _ => rfl]

/-- The occurrences of an option are the same at later positions. -/
theorem occurrences_eq (h : first.Leading second lead passed) (option : SymbolId) :
    first.occurrences option = (second.occurrences option).map (Reading.shift lead.length) := by
  refine h.filter_readings _ (fun reading hmem => ?_) fun _ => rfl
  rw [(h.descends reading hmem).option?_eq_none]
  rfl

/-- A matched option is the same at later positions. -/
theorem optionMatch_eq (h : first.Leading second lead passed)
    (hoption : option ∈ second.optionIds) :
    first.optionMatch option = (second.optionMatch option).shift lead.length := by
  have hvalues := h.flatMap_readings (Reading.optionValues option)
    (fun reading hmem => (h.descends reading hmem).optionValues_eq_nil option)
    (Reading.optionValues_shift lead.length option)
  have hslot : first.slotId option = second.slotId option := by rw [slotId, slotId, h.tree]
  have htokens : (first.occurrences option).map Reading.token =
      ((second.occurrences option).map Reading.token).map (Token.shift lead.length) := by
    rw [h.occurrences_eq, List.map_map, List.map_map]
    rfl
  -- The option has an occurrence, so its command is not made up from where the reports start.
  have hcommand : ((first.occurrences option).head?.map (·.command)).getD first.start =
      ((second.occurrences option).head?.map (·.command)).getD second.start := by
    obtain ⟨reading, hmem, hreading⟩ := List.mem_filterMap.mp (mem_optionIds.mp hoption)
    have hne : second.occurrences option ≠ [] :=
      List.ne_nil_of_mem (List.mem_filter.mpr ⟨hmem, by simpa using hreading⟩)
    obtain ⟨earliest, rest, hoccurrences⟩ := List.exists_cons_of_ne_nil hne
    rw [h.occurrences_eq, hoccurrences]
    rfl
  rw [optionMatch, htokens, hcommand, hvalues, hslot]
  rfl

/-- The matched options are the same at later positions. -/
theorem options_eq (h : first.Leading second lead passed) :
    first.options = second.options.map (OptionMatch.shift lead.length) := by
  rw [options, options, h.optionIds_eq, List.map_map]
  exact List.map_congr_left fun option hoption => h.optionMatch_eq hoption

/-- The tokens that match nothing are the same at later positions. -/
theorem unmatchedReadings_eq (h : first.Leading second lead passed) :
    first.unmatchedReadings = second.unmatchedReadings.map (Reading.shift lead.length) := by
  refine h.filter_readings _ (fun reading hmem => ?_) fun _ => rfl
  exact decide_eq_false (h.descends reading hmem).ne_unmatched

/-! ## Positional arguments -/

/-- The same positional arguments of a command have values. -/
theorem argumentIds_eq (h : first.Leading second lead passed) (command : SymbolId) :
    first.argumentIds command = second.argumentIds command := by
  rw [argumentIds, argumentIds, List.filterMap_filter, List.filterMap_filter,
    h.filterMap_readings _ (fun reading hmem => ?_) fun _ => rfl]
  simp [(h.descends reading hmem).positional?_eq_none]

/-- The positional arguments of a command have the same values at later positions. -/
theorem arguments_eq (h : first.Leading second lead passed) (command : SymbolId) :
    first.arguments command = (second.arguments command).map (Binding.shift lead.length) := by
  rw [arguments, arguments, h.argumentIds_eq, List.map_map]
  refine List.map_congr_left fun argument _ => ?_
  have hvalues := h.flatMap_readings (Reading.positionalValues argument)
    (fun reading hmem => (h.descends reading hmem).positionalValues_eq_nil argument)
    (Reading.positionalValues_shift lead.length argument)
  rw [hvalues]
  rfl

/-! ## Commands -/

/-- The first path comes to the command that the second one starts from, and goes on like it. -/
theorem path_eq (h : first.Leading second lead passed) :
    Reading.path first.start first.readings =
      passed ++ Reading.path second.start second.readings := by
  have hrest : (second.readings.map (Reading.shift lead.length)).filterMap Reading.descent? =
      second.readings.filterMap Reading.descent? := List.filterMap_map
  have hlead := h.path
  rw [Reading.path] at hlead
  rw [Reading.path, h.readings, List.filterMap_append, hrest, ← List.cons_append, hlead,
    List.append_assoc]
  rfl

/-- Both reports end at the same command. -/
theorem terminal_eq (h : first.Leading second lead passed) : first.terminal = second.terminal := by
  have hlast := Reading.getLast?_path first.start first.readings
  rw [h.path_eq, List.getLast?_append, Reading.getLast?_path] at hlast
  exact (Option.some.inj hlast).symm

/-- The commands that are passed are not on the second path. -/
theorem notMem_path (h : first.Leading second lead passed) (hcommand : command ∈ passed) :
    command ∉ Reading.path second.start second.readings := by
  have hnodup := h.first_genuine.trace.nodup_path h.first_genuine.wellFormed
  rw [h.path_eq, List.nodup_append] at hnodup
  exact fun hmem => hnodup.2.2 command hcommand command hmem rfl

/-- The commands that are passed have no values. -/
theorem arguments_eq_nil (h : first.Leading second lead passed) (hcommand : command ∈ passed) :
    first.arguments command = [] := by
  have hnone : second.argumentIds command = [] := by
    rw [List.eq_nil_iff_forall_not_mem]
    intro argument hargument
    obtain ⟨reading, hmem, rfl, -⟩ := mem_argumentIds.mp hargument
    exact h.notMem_path hcommand (h.second_genuine.trace.command_mem_path hmem)
  rw [arguments, h.argumentIds_eq, hnone, List.map_nil]

/-- What is known of a command is the same at later positions. -/
theorem commandMatch_eq (h : first.Leading second lead passed) (command : SymbolId)
    (token : Option Token) :
    first.commandMatch command (token.map (Token.shift lead.length)) =
      (second.commandMatch command token).shift lead.length := by
  have hoptions : (first.options.filter (·.command = command)).map (·.option) =
      (second.options.filter (·.command = command)).map (·.option) := by
    rw [h.options_eq, List.filter_map, List.map_map]
    rfl
  rw [commandMatch, commandMatch, hoptions, h.arguments_eq]
  rfl

/-- The first path is that of the names up to the command that the second one starts from, which has
a token now, and goes on like the second one at later positions. -/
theorem exists_path (h : first.Leading second lead passed) :
    ∃ above found, first.path =
        above ++ found :: second.path.tail.map (CommandMatch.shift lead.length) ∧
      above.map (·.command) = passed ∧
      found.unnamed = (second.commandMatch second.start none).shift lead.length := by
  have hrest : (second.readings.map (Reading.shift lead.length)).filterMap first.named? =
      second.path.tail.map (CommandMatch.shift lead.length) := by
    rw [Report.path, List.tail_cons, List.map_filterMap, List.filterMap_map]
    refine List.filterMap_congr fun reading _ => ?_
    rw [Function.comp_apply, named?, Option.map_map]
    refine Option.map_congr fun command _ => ?_
    exact h.commandMatch_eq command (some reading.token)
  have hpath : first.path = (first.commandMatch first.start none :: lead.filterMap first.named?) ++
      second.path.tail.map (CommandMatch.shift lead.length) := by
    rw [← hrest, List.cons_append, ← List.filterMap_append, ← h.readings]
    rfl
  have hcommands :
      (first.commandMatch first.start none :: lead.filterMap first.named?).map (·.command) =
        passed ++ [second.start] := by
    rw [← h.path, Reading.path, List.map_cons, List.map_filterMap]
    congr 1
    refine List.filterMap_congr fun reading _ => ?_
    cases hdescent : reading.descent? <;> simp [named?, hdescent, commandMatch]
  obtain ⟨above, last, hsplit, habove, hlast⟩ := List.map_eq_append_iff.mp hcommands
  obtain ⟨found, rfl, hfound⟩ := List.map_eq_singleton_iff.mp hlast
  rw [hsplit, List.append_assoc] at hpath
  refine ⟨above, found, hpath, habove, ?_⟩
  have hmem : found ∈ first.path := by
    rw [hpath]
    exact List.mem_append_right _ List.mem_cons_self
  rw [eq_commandMatch_of_mem_path hmem, hfound]
  exact h.commandMatch_eq second.start none

/-! ## Values -/

/-- The bindings of positional arguments are the same at later positions. -/
theorem positional_eq (h : first.Leading second lead passed) :
    first.path.flatMap (·.arguments) =
      (second.path.flatMap (·.arguments)).map (Binding.shift lead.length) := by
  have hnone : passed.flatMap first.arguments = [] := by
    rw [List.flatMap_eq_nil_iff]
    exact fun command hcommand => h.arguments_eq_nil hcommand
  rw [positional_bindings, positional_bindings, h.path_eq, List.flatMap_append, hnone,
    List.nil_append, List.map_flatMap]
  exact List.flatMap_congr fun command _ => h.arguments_eq command

/-- The bindings are the same at later positions. -/
theorem bindings_eq (h : first.Leading second lead passed) :
    first.bindings = second.bindings.map (Binding.shift lead.length) := by
  rw [bindings, bindings, h.positional_eq, h.options_eq, List.map_append, List.map_map,
    List.map_map]
  rfl

/-- The binding of an argument is the same at later positions. -/
theorem binding?_eq (h : first.Leading second lead passed) (argument : SymbolId) :
    first.binding? argument = (second.binding? argument).map (Binding.shift lead.length) := by
  rw [binding?, binding?, h.bindings_eq, List.find?_map]
  rfl

/-- Raw values become the same at later positions. -/
theorem settle_shift (h : first.Leading second lead passed) (binding : Binding) :
    first.settle (binding.shift lead.length) = second.settle binding :=
  settle_congr h.tree (binding.gist_shift lead.length)

/-- The values of all symbols come from the same. -/
theorem origin_eq (h : first.Leading second lead passed) (id : SymbolId) :
    first.origin id = second.origin id := by
  refine origin_congr h.tree (fun argument => ?_) id
  rw [h.binding?_eq, Option.map_map]
  exact Option.map_congr fun binding _ => binding.raws_shift lead.length

/-- The same symbols are selected. -/
theorem selection_eq (h : first.Leading second lead passed) :
    first.selection = second.selection :=
  selection_congr h.tree h.optionIds_eq h.terminal_eq

/-! ## Errors -/

/-- Errors found one by one say the same if each of them does. -/
theorem map_gist_filterMap {A B : Type} {values : List A} {change : A → B}
    {before : B → Option ParseError} {after : A → Option ParseError}
    (h : ∀ value ∈ values,
      (before (change value)).map ParseError.gist = (after value).map ParseError.gist) :
    ((values.map change).filterMap before).map ParseError.gist =
      (values.filterMap after).map ParseError.gist := by
  rw [List.filterMap_map, List.map_filterMap, List.map_filterMap]
  exact List.filterMap_congr h

/-- Errors found several at a time say the same if each of them does. -/
theorem map_gist_flatMap {A B : Type} {values : List A} {change : A → B}
    {before : B → List ParseError} {after : A → List ParseError}
    (h : ∀ value ∈ values,
      (before (change value)).map ParseError.gist = (after value).map ParseError.gist) :
    ((values.map change).flatMap before).map ParseError.gist =
      (values.flatMap after).map ParseError.gist := by
  rw [List.flatMap_map, List.map_flatMap, List.map_flatMap]
  exact List.flatMap_congr h

/-- The same is wrong with a token that matches nothing, and the same text is suggested. -/
theorem gist_unrecognized? (h : first.Leading second lead passed) (reading : Reading) :
    (first.unrecognized? (reading.shift lead.length)).map ParseError.gist =
      (second.unrecognized? reading).map ParseError.gist := by
  simp only [unrecognized?, h.tree, config, h.setting, Reading.shift]
  split <;> rfl

/-- The same is wrong with the positional arguments of a command that has the same values. -/
theorem gist_argumentErrors (h : first.Leading second lead passed) {found other : CommandMatch}
    (hcommand : found.command = other.command)
    (harguments : found.arguments = other.arguments.map (Binding.shift lead.length)) :
    (first.argumentErrors found).map ParseError.gist =
      (second.argumentErrors other).map ParseError.gist := by
  have hmissing : ∀ argument, (first.missingArgument? found argument).map ParseError.gist =
      (second.missingArgument? other argument).map ParseError.gist := by
    intro argument
    have hall : found.arguments.all (·.argument ≠ argument) =
        other.arguments.all (·.argument ≠ argument) := by
      rw [harguments, List.all_map]
      rfl
    rw [missingArgument?, missingArgument?, h.tree, hcommand, hall]
    cases second.tree.argument? argument with
    | none => rfl
    | some node =>
      simp only
      split <;> rfl
  rw [argumentErrors, argumentErrors, List.map_append, List.map_append, harguments, h.tree,
    hcommand]
  congr 1
  · exact map_gist_filterMap fun binding _ =>
      gist_bindingError?_congr h.tree (binding.gist_shift lead.length) _ _ _
  · rw [List.map_filterMap, List.map_filterMap]
    exact List.filterMap_congr fun argument _ => hmissing argument

/-- The same is missing at the deepest command. -/
theorem omissionErrors_eq (h : first.Leading second lead passed) :
    first.omissionErrors = second.omissionErrors :=
  omissionErrors_congr h.setting (fun option => by rw [h.optionIds_eq]) h.terminal_eq

/-- An error about a command that is passed is about an argument of it that has no binding. -/
theorem of_mem_argumentErrors (h : first.Leading second lead passed) {found : CommandMatch}
    (hfound : found ∈ first.path) (hpassed : found.command ∈ passed) {error : ParseError}
    (herror : error ∈ first.argumentErrors found) :
    error.kind = .arityViolation ∧ ∃ argument ∈ first.tree.arguments found.command,
      error.symbol = some argument ∧ first.binding? argument = none := by
  have hnone : found.arguments = [] := by
    rw [eq_commandMatch_of_mem_path hfound]
    exact h.arguments_eq_nil hpassed
  rw [argumentErrors, hnone, List.filterMap_nil, List.nil_append] at herror
  obtain ⟨argument, hargument, hmissing⟩ := List.mem_filterMap.mp herror
  rw [missingArgument?] at hmissing
  cases hnode : first.tree.argument? argument with
  | none => simp [hnode] at hmissing
  | some node =>
    simp only [hnode] at hmissing
    split at hmissing
    · obtain rfl := Option.some.inj hmissing
      refine ⟨rfl, argument, hargument, rfl, ?_⟩
      rw [h.first_genuine.binding?_eq_none_iff hfound hargument, hnone]
      exact fun binding hbinding => absurd hbinding List.not_mem_nil
    · simp at hmissing

/-- The same is wrong with the tokens that match nothing. -/
theorem gist_unrecognizedErrors (h : first.Leading second lead passed) :
    first.unrecognizedErrors.map ParseError.gist =
      second.unrecognizedErrors.map ParseError.gist := by
  rw [unrecognizedErrors, h.unmatchedReadings_eq]
  exact map_gist_filterMap fun reading _ => h.gist_unrecognized? reading

/-- The same is wrong with the values of options. -/
theorem gist_optionBindingErrors (h : first.Leading second lead passed) :
    (first.options.filterMap first.optionBindingError?).map ParseError.gist =
      (second.options.filterMap second.optionBindingError?).map ParseError.gist := by
  rw [h.options_eq]
  exact map_gist_filterMap fun found _ =>
    gist_optionBindingError?_congr h.tree rfl (found.binding.gist_shift lead.length)

/-- The same is wrong with the positional arguments along the second path, and what else is wrong
with positional arguments is so above it. -/
theorem gist_pathErrors (h : first.Leading second lead passed) {above : List CommandMatch}
    {found : CommandMatch}
    (hpath : first.path = above ++ found :: second.path.tail.map (CommandMatch.shift lead.length))
    (hfound : found.unnamed = (second.commandMatch second.start none).shift lead.length) :
    (first.path.flatMap first.argumentErrors).map ParseError.gist =
      (above.flatMap first.argumentErrors).map ParseError.gist ++
        (second.path.flatMap second.argumentErrors).map ParseError.gist := by
  have hcommand := congrArg CommandMatch.command hfound
  have hgiven := congrArg CommandMatch.arguments hfound
  have hlast : (first.argumentErrors found).map ParseError.gist =
      (second.argumentErrors (second.commandMatch second.start none)).map ParseError.gist :=
    h.gist_argumentErrors hcommand hgiven
  have hrest : ((second.path.tail.map (CommandMatch.shift lead.length)).flatMap
        first.argumentErrors).map ParseError.gist =
      (second.path.tail.flatMap second.argumentErrors).map ParseError.gist :=
    map_gist_flatMap fun other _ => h.gist_argumentErrors rfl rfl
  rw [hpath, List.flatMap_append, List.map_append, List.flatMap_cons, List.map_append, hlast,
    hrest, ← List.map_append, ← List.flatMap_cons]
  rfl

/-- The same values are rejected. -/
theorem gist_validationErrors (h : first.Leading second lead passed) :
    first.validationErrors.map ParseError.gist = second.validationErrors.map ParseError.gist := by
  rw [validationErrors, validationErrors, List.map_append, List.map_append, h.options_eq,
    h.positional_eq]
  congr 1
  · exact map_gist_flatMap fun found _ =>
      gist_optionRejections_congr h.tree rfl (found.binding.gist_shift lead.length)
  · exact map_gist_flatMap fun binding _ =>
      gist_argumentRejections_congr h.tree (binding.gist_shift lead.length)

/-- The errors are the same, and others about the commands that are passed. -/
theorem exists_perm_errors (h : first.Leading second lead passed) :
    ∃ unbound,
      (first.errors.map ParseError.gist).Perm ((second.errors ++ unbound).map ParseError.gist) ∧
        ∀ error ∈ unbound, error.kind = .arityViolation ∧
          ∃ command ∈ passed, ∃ argument ∈ first.tree.arguments command,
            error.symbol = some argument ∧ first.binding? argument = none := by
  obtain ⟨above, found, hpath, habove, hfound⟩ := h.exists_path
  refine ⟨above.flatMap first.argumentErrors, ?_, ?_⟩
  · -- The errors above the second path stand in the middle of the first list, and nothing else moves.
    simp only [errors, bindingErrors, List.map_append, h.gist_unrecognizedErrors,
      h.gist_optionBindingErrors, h.gist_pathErrors hpath hfound, h.gist_validationErrors,
      h.omissionErrors_eq]
    refine List.perm_iff_count.mpr fun gist => ?_
    simp only [List.count_append]
    omega
  · intro error herror
    obtain ⟨passing, hpassing, herror⟩ := List.mem_flatMap.mp herror
    have hpassed : passing.command ∈ passed := by
      rw [← habove]
      exact List.mem_map_of_mem hpassing
    have hmem : passing ∈ first.path := by
      rw [hpath]
      exact List.mem_append_left _ hpassing
    obtain ⟨hkind, hunbound⟩ := h.of_mem_argumentErrors hmem hpassed herror
    exact ⟨hkind, passing.command, hpassed, hunbound⟩

/-- Readings of names in front of the readings of a report make a report that extends it. -/
theorem extends_second (h : first.Leading second lead passed)
    (hlength : passed.length = lead.length) : first.Extends second passed lead.length := by
  obtain ⟨above, found, hpath, habove, hfound⟩ := h.exists_path
  have hdrop : first.path.drop lead.length =
      found :: second.path.tail.map (CommandMatch.shift lead.length) := by
    rw [hpath, List.drop_left']
    rw [← hlength, ← habove, List.length_map]
  obtain ⟨haction, hahead⟩ := actions_congr h.tree h.selection_eq
  refine ⟨h.terminal_eq, ?_, ?_, h.options_eq, fun binding _ => h.settle_shift binding,
    h.bindings_eq, ?_, ?_, h.selection_eq, haction, hahead, ?_, h.exists_perm_errors⟩
  · rw [map_command_path, map_command_path, h.path_eq]
  · rw [hdrop, List.modifyHead_cons, hfound]
    rfl
  · rw [tokens, tokens, h.readings, List.map_append, List.drop_left' (List.length_map _),
      List.map_map, List.map_map]
    rfl
  · rw [unmatched, unmatched, h.unmatchedReadings_eq, List.map_map, List.map_map]
    rfl
  · intro id
    rw [valueOf, valueOf, h.origin_eq]

end Leading

end Report

namespace CommandTree

variable {tree : CommandTree β} {config : Config} {start target : SymbolId} {texts : List String}
  {passed : List SymbolId}

/-- A way down from a symbol of the tree ends at one. -/
theorem Leads.isSome_symbol? (h : tree.Leads start texts passed target) (htree : tree.WellFormed)
    (hstart : (tree.symbol? start).isSome) : (tree.symbol? target).isSome := by
  induction h with
  | nil => exact hstart
  | cons _ hsub _ ih =>
    have hmem := htree.mem_commands.mp (List.mem_of_find?_eq_some hsub)
    exact ih (isSome_symbol?_of_command? hmem.1)

/-- The names of subcommands are read in front of what is read from the last of them on. -/
theorem Leads.exists_leading (h : tree.Leads start texts passed target) (htree : tree.WellFormed)
    (config : Config) (rest : List String) :
    ∃ lead, lead.length = texts.length ∧
      (tree.report config start (texts ++ rest)).Leading (tree.report config target rest) lead
        passed := by
  obtain ⟨lead, hlength, hdescends, hpath, hfold⟩ :=
    h.exists_foldl_step (Setting.of tree config) rfl
  refine ⟨lead, hlength, htree.genuine _, htree.genuine _, rfl, ?_, hdescends, hpath⟩
  rw [report, cursorAfter, List.foldl_append, hfold, Cursor.foldl_step_prepend]
  rfl

/-- A command line can be parsed from any command that its first texts lead to. If texts name
subcommands one below another in a reachable tree, then with delimiters of one byte a command line
that begins with them is parsed from the first command to the same outcome as its rest is from the
last one, at positions that are greater by the number of the texts. -/
theorem exists_extends (h : Reachable tree) (hstart : (tree.command? start).isSome)
    (hleads : tree.Leads start texts passed target)
    (hdelimiters : ∀ d ∈ config.inlineDelimiters, d.utf8Size = 1) (rest : List String) :
    ∃ first second, tree.parse config start (texts ++ rest) = .ok first ∧
      tree.parse config target rest = .ok second ∧
      first.Extends second passed texts.length := by
  have hsymbol := isSome_symbol?_of_command? hstart
  have htarget := hleads.isSome_symbol? h.wellFormed hsymbol
  obtain ⟨lead, hlength, hleading⟩ := hleads.exists_leading h.wellFormed config rest
  have hextends := hleading.extends_second (by rw [hleads.length_eq, hlength])
  rw [hlength] at hextends
  exact ⟨_, _, parse_eq_report hsymbol hdelimiters _, parse_eq_report htarget hdelimiters _,
    hextends⟩

/-- A program with a positional argument above its subcommands: `app <file>`, `app remote` and
`app remote add <name>`, the last two with `--tag`. -/
def nested : CommandTree Unit :=
  (new { name := "app" }).editAll
    [.addArgument root { name := "file" },
      .addCommand root { name := "remote" },
      .addOption 2 { aliases := ["--tag"] } true,
      .addCommand 2 { name := "add" },
      .addArgument 5 { name := "name" }]

/-- Two names in front, an inherited option, and a value too many. -/
theorem exists_extends_nested : ∃ first second,
    nested.parse {} root (["remote", "add"] ++ ["--tag", "x", "y"]) = .ok first ∧
      nested.parse {} 5 ["--tag", "x", "y"] = .ok second ∧ first.Extends second [root, 2] 2 :=
  exists_extends ((Reachable.new _).editAll _) (by decide)
    (.cons (by decide) (by decide) (.cons (by decide) (by decide) (.nil 5)))
    Config.utf8Size_eq_one _

example : (nested.report {} root ["remote", "add", "--tag", "x"]).errors.map (·.message) =
      ["Required argument missing for command: 'app'."] ∧
    (nested.report {} 5 ["--tag", "x"]).errors = [] := by
  decide +kernel

end CommandTree

end CommandLine
