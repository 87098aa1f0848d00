import CommandLine.Proofs.Reading.Dealing
import CommandLine.Proofs.Report.Continuation
import CommandLine.Proofs.Report.Violations

/-!
# How positional arguments share tokens

Under each command of a path some tokens are placed: they are no names, they are not `--`, and no
option takes them. In their order they fill the positional arguments of the command, each up to its
greatest number of values and none before the one in front of it is full. What is left matches
nothing. Options in between make no difference, and neither do arguments without room.
-/

namespace CommandLine

variable {β : Type}

/-- The tokens of a command line that are placed while a command is current. -/
def CommandTree.placed (tree : CommandTree β) (config : Config) (start command : SymbolId)
    (texts : List String) : List Bound :=
  (Cursor.start (Setting.of tree config) start).placed (Setting.of tree config) command texts

/-- The greatest number of values of an argument, none for what is no argument. -/
def CommandTree.most (tree : CommandTree β) (argument : SymbolId) : ℕ :=
  ((tree.argument? argument).map (·.arity.most)).getD 0

/-- The text of a token with its position. -/
def Token.bound (token : Token) : Bound := ⟨token.text, token.position⟩

namespace Report

/-- Whether a token stands under a command and is neither a name nor `--` nor a value of an option. -/
def IsLoose (report : Report β) (command : SymbolId) (token : Token) : Prop :=
  report.commandAt token.position = command ∧
    (token.kind = .unparsed ∨
      token.kind = .argument ∧ ∀ found ∈ report.options, token.bound ∉ found.binding.values)

instance (report : Report β) (command : SymbolId) : DecidablePred (report.IsLoose command) :=
  fun _ => inferInstanceAs (Decidable (_ ∧ _))

/-- How the tokens that are placed under a command are shared. -/
structure Shares (report : Report β) (command : SymbolId) (placed : List Bound) : Prop where
  loose : (report.tokens.filter (report.IsLoose command)).map Token.bound = placed
  /-- An argument has the tokens behind those of the arguments before it, up to its greatest number. -/
  values : ∀ before argument after, report.tree.arguments command = before ++ argument :: after →
    report.valuesOf argument =
      (placed.drop (before.map report.tree.most).sum).take (report.tree.most argument)
  /-- What is left matches nothing. -/
  rest : (report.unmatched.filter (report.commandAt ·.position = command)).map Token.bound =
    placed.drop ((report.tree.arguments command).map report.tree.most).sum
  bounded : ∀ argument ∈ report.tree.arguments command, ∃ node,
    report.tree.argument? argument = some node ∧
      (report.valuesOf argument).length ≤ node.arity.most
  /-- Where a token matches nothing, every argument is full, and its values come before. -/
  full : ∀ token ∈ report.unmatched, report.commandAt token.position = command →
    ∀ argument ∈ report.tree.arguments command,
      (report.valuesOf argument).length = report.tree.most argument ∧
        ∀ value ∈ report.valuesOf argument, value.position < token.position

variable {report : Report β} {command argument : SymbolId} {reading : Reading}

/-! ## The readings under a command -/

namespace Genuine

/-- What a reading gives to a positional argument is what it deals to it under its command. -/
theorem positionalValues_eq_dealt (h : report.Genuine)
    (hargument : argument ∈ report.tree.arguments command) (hmem : reading ∈ report.readings) :
    reading.positionalValues argument = ((reading.dealt? command).bind fun entry =>
      if entry.1 = some argument then some entry.2 else none).toList := by
  rw [Reading.positionalValues, Reading.dealt?]
  cases hmeaning : reading.meaning with
  | positional other =>
    by_cases hother : other = argument
    · have hown := h.mem_arguments_of_reading hmem hmeaning
      rw [hother] at hown
      simp [hother, h.wellFormed.eq_of_mem_arguments hown hargument]
    · by_cases hcommand : reading.command = command <;> simp [hother, hcommand]
  | unmatched => by_cases hcommand : reading.command = command <;> simp [hcommand]
  | _ => simp

/-- The values of a positional argument are what is dealt to it under its command. -/
theorem valuesOf_eq_dealtTo (h : report.Genuine)
    (hargument : argument ∈ report.tree.arguments command) :
    report.valuesOf argument =
      dealtTo (some argument) (report.readings.filterMap (Reading.dealt? command)) := by
  rw [h.valuesOf_eq, dealtTo, List.filterMap_filterMap, List.filterMap_eq_flatMap_toList]
  refine List.flatMap_congr fun reading hmem => ?_
  rw [← h.positionalValues_eq hargument hmem, h.positionalValues_eq_dealt hargument hmem]

/-- The tokens under a command that match nothing are those that are dealt to none. -/
theorem unmatched_eq_dealtTo (h : report.Genuine) (command : SymbolId) :
    (report.unmatched.filter (report.commandAt ·.position = command)).map Token.bound =
      dealtTo none (report.readings.filterMap (Reading.dealt? command)) := by
  rw [dealtTo, List.filterMap_filterMap, unmatched, unmatchedReadings, List.filter_map, List.map_map,
    List.filter_filter, ← Sequence.filterMap_ite]
  refine List.filterMap_congr fun reading hmem => ?_
  have hcommand : report.commandAt reading.position = reading.command := h.commandAt_eq hmem
  rw [Reading.dealt?]
  by_cases hcurrent : reading.command = command
  · cases hmeaning : reading.meaning <;> simp [hcommand, hcurrent, Token.bound, Reading.token]
  · simp [hcommand, hcurrent, Reading.token]

/-- A token of kind argument is loose if it goes to a positional argument. -/
theorem notMem_options_iff (h : report.Genuine) (hmem : reading ∈ report.readings)
    (hkind : reading.kind = .argument) :
    (∀ found ∈ report.options, reading.token.bound ∉ found.binding.values) ↔
      ∃ argument, reading.meaning = .positional argument := by
  constructor
  · intro hnone
    cases hmeaning : reading.meaning with
    | positional argument => exact ⟨argument, rfl⟩
    | optionValue option =>
      have hoption := h.mem_optionIds_of_reading hmem (Or.inr hmeaning)
      refine absurd ?_ (hnone _ (List.mem_map_of_mem hoption))
      refine List.mem_flatMap.mpr ⟨reading, hmem, ?_⟩
      simp [Reading.optionValues, hmeaning, Token.bound, Reading.token]
    | _ => simp [Reading.kind, hmeaning] at hkind
  · rintro ⟨argument, hmeaning⟩ found hfound hvalue
    obtain ⟨option, -, rfl⟩ := List.mem_map.mp hfound
    obtain ⟨other, hother, hgives⟩ := List.mem_flatMap.mp hvalue
    have hposition : other.position = reading.position := by
      unfold Reading.optionValues at hgives
      split at hgives
      · split at hgives
        · obtain ⟨text, -, hsame⟩ := List.mem_map.mp hgives
          exact congrArg Bound.position hsame
        · simp at hgives
      · split at hgives
        · exact congrArg Bound.position (List.mem_singleton.mp hgives).symm
        · simp at hgives
      · simp at hgives
    obtain rfl := h.trace.eq_of_position_eq hother hmem hposition
    simp [Reading.optionValues, hmeaning] at hgives

/-- A token is loose under a command if it is dealt there. -/
theorem isLoose_iff (h : report.Genuine) (hmem : reading ∈ report.readings) :
    report.IsLoose command reading.token ↔ reading.command = command ∧
      ((∃ argument, reading.meaning = .positional argument) ∨ reading.meaning = .unmatched) := by
  rw [IsLoose, show reading.token.position = reading.position from rfl, h.commandAt_eq hmem]
  refine and_congr_right' ?_
  have hvalue := @notMem_options_iff β report reading h hmem
  rw [show reading.token.kind = reading.kind from rfl]
  cases hmeaning : reading.meaning with
  | positional argument =>
    have hkind : reading.kind = .argument := by simp [Reading.kind, hmeaning]
    exact iff_of_true (.inr ⟨hkind, (hvalue hkind).mpr ⟨argument, hmeaning⟩⟩) (.inl ⟨argument, rfl⟩)
  | optionValue option =>
    have hkind : reading.kind = .argument := by simp [Reading.kind, hmeaning]
    rw [hvalue hkind, hmeaning]
    simp [hkind]
  | unmatched => simp [Reading.kind, hmeaning]
  | _ => simp [Reading.kind, hmeaning]

/-- The loose tokens under a command are those that are dealt there. -/
theorem loose_eq (h : report.Genuine) (command : SymbolId) :
    (report.tokens.filter (report.IsLoose command)).map Token.bound =
      (report.readings.filterMap (Reading.dealt? command)).map (·.2) := by
  rw [tokens, List.filter_map, List.map_map, ← Sequence.filterMap_ite, List.map_filterMap]
  refine List.filterMap_congr fun reading hmem => ?_
  have hloose := @isLoose_iff β report command reading h hmem
  rw [Reading.dealt?]
  by_cases hcurrent : reading.command = command
  · cases hmeaning : reading.meaning <;> simp [hloose, hcurrent, hmeaning] <;> rfl
  · simp [hloose, hcurrent]

/-- Tokens of a report have growing positions. -/
theorem pairwise_bound (h : report.Genuine) (p : Token → Bool) :
    ((report.tokens.filter p).map Token.bound).Pairwise (·.position < ·.position) := by
  rw [List.pairwise_map]
  refine List.Pairwise.filter p ?_
  rw [tokens, List.pairwise_map]
  exact h.trace.pairwise_positions

end Genuine

end Report

namespace CommandTree

variable {tree : CommandTree β} {config : Config} {start command : SymbolId} {texts : List String}

/-- The slots of a command are its arguments with their greatest numbers. -/
theorem slots_eq (tree : CommandTree β) (config : Config) (command : SymbolId) :
    (Setting.of tree config).slots command =
      (tree.arguments command).map fun argument => (argument, tree.most argument) := rfl

/-- Under a command from the first one on, the placed tokens are dealt to its arguments. -/
theorem WellFormed.dealt_report (h : tree.WellFormed) (hle : start ≤ command) :
    (tree.report config start texts).readings.filterMap (Reading.dealt? command) =
      deal ((tree.arguments command).map fun argument => (argument, tree.most argument))
        (tree.placed config start command texts) := by
  obtain ⟨tail, htail, hdealt⟩ := @Cursor.dealt_foldl_step β (Setting.of tree config)
    (Cursor.start (Setting.of tree config) start) h command texts
  have hreadings : (tree.report config start texts).readings = tail := htail
  rw [Cursor.slotsFor_of_le hle fun hstart => congrArg (Setting.slots _) hstart, slots_eq] at hdealt
  rw [hreadings, hdealt]
  rfl

/-- An argument has the tokens behind those of the arguments before it, up to its greatest number. -/
theorem WellFormed.valuesOf_report (h : tree.WellFormed) (hle : start ≤ command)
    {before after : List SymbolId} {argument : SymbolId}
    (hsplit : tree.arguments command = before ++ argument :: after) :
    (tree.report config start texts).valuesOf argument =
      ((tree.placed config start command texts).drop (before.map tree.most).sum).take
        (tree.most argument) := by
  have hgenuine := @WellFormed.genuine β tree config start h texts
  have hargument : argument ∈ tree.arguments command := by simp [hsplit]
  have hnodup := h.nodup_arguments command
  rw [hsplit, List.nodup_middle, List.nodup_cons, List.mem_append, not_or] at hnodup
  have hkeys : ∀ arguments : List SymbolId,
      (arguments.map fun argument => (argument, tree.most argument)).map (·.1) = arguments := by
    intro arguments
    simp [Function.comp_def]
  rw [hgenuine.valuesOf_eq_dealtTo hargument, h.dealt_report hle, hsplit, List.map_append,
    List.map_cons, dealtTo_deal (by rw [hkeys]; exact hnodup.1.1) (by rw [hkeys]; exact hnodup.1.2),
    List.map_map]
  rfl

/-- Under a command from the first one on, the placed tokens are shared. -/
theorem WellFormed.shares (h : tree.WellFormed) (hle : start ≤ command) :
    (tree.report config start texts).Shares command (tree.placed config start command texts) := by
  have hgenuine := @WellFormed.genuine β tree config start h texts
  have hplaced : ((tree.report config start texts).readings.filterMap
      (Reading.dealt? command)).map (·.2) = tree.placed config start command texts := by
    rw [h.dealt_report hle, map_snd_deal]
  have hrest : ((tree.report config start texts).unmatched.filter
        ((tree.report config start texts).commandAt ·.position = command)).map Token.bound =
      (tree.placed config start command texts).drop
        ((tree.arguments command).map tree.most).sum := by
    rw [hgenuine.unmatched_eq_dealtTo, h.dealt_report hle, dealtTo_none_deal, List.map_map]
    rfl
  refine ⟨(hgenuine.loose_eq command).trans hplaced, fun before argument after hsplit =>
    h.valuesOf_report hle hsplit, hrest, ?_, ?_⟩
  · intro argument hargument
    replace hargument : argument ∈ tree.arguments command := hargument
    obtain ⟨before, after, hsplit⟩ := List.append_of_mem hargument
    obtain ⟨node, hnode⟩ := Option.isSome_iff_exists.mp (h.of_mem_arguments hargument).1
    refine ⟨node, hnode, ?_⟩
    rw [h.valuesOf_report hle hsplit, show tree.most argument = node.arity.most by simp [most, hnode]]
    exact List.length_take_le _ _
  · intro token htoken hcommand argument hargument
    replace hargument : argument ∈ tree.arguments command := hargument
    obtain ⟨before, after, hsplit⟩ := List.append_of_mem hargument
    have hleft : token.bound ∈ (tree.placed config start command texts).drop
        ((tree.arguments command).map tree.most).sum := by
      rw [← hrest]
      exact List.mem_map_of_mem (List.mem_filter.mpr ⟨htoken, by simpa using hcommand⟩)
    have hpairwise := hgenuine.pairwise_bound ((tree.report config start texts).IsLoose command)
    rw [hgenuine.loose_eq, hplaced] at hpairwise
    rw [h.valuesOf_report hle hsplit]
    generalize tree.placed config start command texts = placed at *
    have hcount : (before.map tree.most).sum + tree.most argument ≤
        ((tree.arguments command).map tree.most).sum := by
      rw [hsplit, List.map_append, List.map_cons, List.sum_append, List.sum_cons]
      omega
    generalize ((tree.arguments command).map tree.most).sum = total at *
    have hlonger : total < placed.length := by
      by_contra hshort
      rw [List.drop_eq_nil_of_le (by omega)] at hleft
      cases hleft
    refine ⟨?_, fun value hvalue => ?_⟩
    · rw [List.length_take, List.length_drop]
      exact Nat.min_eq_left (by omega)
    · rw [← List.take_append_drop total placed, List.pairwise_append] at hpairwise
      refine hpairwise.2.2 value ?_ token.bound hleft
      rw [List.take_drop] at hvalue
      exact List.take_subset_take_left _ hcount (List.mem_of_mem_drop hvalue)

/-- From a command of a reachable tree, with delimiters of one byte, every command line is parsed,
and under every command of its path the placed tokens fill the arguments in order, each up to its
greatest number of values, and what is left matches nothing. -/
theorem exists_shares (h : Reachable tree) (hstart : (tree.command? start).isSome)
    (hdelimiters : ∀ d ∈ config.inlineDelimiters, d.utf8Size = 1) (texts : List String) :
    ∃ report, tree.parse config start texts = .ok report ∧ ∀ found ∈ report.path,
      report.Shares found.command (tree.placed config start found.command texts) := by
  have hgenuine := @WellFormed.genuine β tree config start h.wellFormed texts
  refine ⟨_, parse_eq_report (isSome_symbol?_of_command? hstart) hdelimiters texts, ?_⟩
  intro found hfound
  refine h.wellFormed.shares ?_
  have hpath : found.command ∈ Reading.path start (tree.report config start texts).readings := by
    have hmem := List.mem_map_of_mem (f := CommandMatch.command) hfound
    rwa [Report.map_command_path] at hmem
  rcases List.mem_cons.mp hpath with hfirst | hlater
  · exact Nat.le_of_eq hfirst.symm
  · exact Nat.le_of_lt (List.rel_of_pairwise_cons (hgenuine.trace.pairwise_path h.wellFormed) hlater)

/-- Options and `--` stand between the tokens that fill the arguments of a subcommand. -/
theorem exists_shares_sample : ∃ report,
    sample.parse {} root ["build", "x", "-t", "a", "--", "y", "--", "z"] = .ok report ∧
    ∀ found ∈ report.path, report.Shares found.command
      (sample.placed {} root found.command ["build", "x", "-t", "a", "--", "y", "--", "z"]) :=
  exists_shares reachable_sample (by decide) Config.utf8Size_eq_one _

end CommandTree

end CommandLine
