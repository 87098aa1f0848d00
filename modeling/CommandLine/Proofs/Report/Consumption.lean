import CommandLine.Proofs.Reading.Recognition
import CommandLine.Proofs.Reading.Run
import CommandLine.Proofs.Report.Accounting
import CommandLine.Proofs.Report.Continuation
import CommandLine.Proofs.Report.Respelling

/-!
# What options take

The values of an option are what its occurrences take, one occurrence after another. An occurrence
with a value behind a delimiter takes the values in its own token. Any other takes the tokens behind
it up to the first place where taking ends: at the end of the command line, where one occurrence has
as many values as it may have, in front of a token that is recognized at the command, or in front of
one that is no truth value if the option is a flag that may stand alone.

So no option takes a token that is recognized. Up to the first `--`, the tokens that are read as
names or as `--` are exactly those that are recognized at the command that is current there.
-/

namespace CommandLine

variable {β : Type}

namespace CommandTree

/-- Taking values for an occurrence at one place can end in front of another one. -/
inductive EndsRun (tree : CommandTree β) (delimiters : List Char) (texts : List String)
    (command : SymbolId) (node : OptionNode β) (argument : ArgumentNode) (place stop : ℕ) : Prop where
  | exhausted (hend : texts[stop]? = none)
  | full (hfull : (if node.multi then argument.arity.most else min argument.arity.most 1) ≤
      stop - place - 1)
  | recognized {token : String} (htoken : texts[stop]? = some token)
      (hrecognizes : tree.Recognizes delimiters command token)
  | noTruth {token : String} (htoken : texts[stop]? = some token)
      (hflag : argument.type.isBool = true ∧ argument.arity.least = 0) (hread : readBool token = none)

/-- The values that an occurrence of an option takes: those in its own token behind a delimiter, or
those behind it up to the first place where taking can end. -/
inductive Takes (tree : CommandTree β) (delimiters : List Char) (texts : List String)
    (command option : SymbolId) (token : Token) : List String → Prop where
  | inline {node : OptionNode β} {argument : ArgumentNode} {text value : String}
      (hnode : tree.option? option = some node) (hslot : tree.slot? option = some argument)
      (hwhole : (tree.scope command).resolve token.text = none)
      (hcuts : Inline.Cuts delimiters token.text text value)
      (hresolve : (tree.scope command).resolve text = some option) :
      Takes tree delimiters texts command option token
        (if node.multi = true ∧ 1 < argument.arity.most then
          (value.toList.splitOn ',').map String.ofList
        else [value])
  | behind {node : OptionNode β} {argument : ArgumentNode} {stop : ℕ}
      (hnode : tree.option? option = some node) (hslot : tree.slot? option = some argument)
      (hresolve : (tree.scope command).resolve token.text = some option)
      (hstop : IsLeast {stop | token.position < stop ∧ tree.EndsRun delimiters texts command node
        argument token.position stop} stop) :
      Takes tree delimiters texts command option token (texts.extract (token.position + 1) stop)

end CommandTree

namespace Report

/-- What options take of a command line, and which of its tokens are recognized. -/
structure Consumes (report : Report β) (texts : List String) : Prop where
  /-- The occurrences of an option are tokens in their order, and every token that names an option is
  an occurrence of one. -/
  ordered : ∀ found ∈ report.options, found.tokens.Sublist report.tokens
  named : ∀ token ∈ report.tokens, token.kind = .option → ∃ found ∈ report.options,
    token ∈ found.tokens
  /-- The raw values of an option are what its occurrences take, one after another. -/
  values : ∀ option node, report.tree.option? option = some node →
    ∃ runs, List.Forall₂ (fun token => report.tree.Takes report.config.inlineDelimiters texts
        (report.commandAt token.position) option token)
        ((report.option? option).elim [] (·.tokens)) runs ∧
      (report.valuesOf node.argument).map (·.text) = runs.flatten
  /-- Up to the first `--`, names and `--` are the tokens that are recognized. -/
  recognized : ∀ position text, texts[position]? = some text → "--" ∉ texts.take position →
    ∃ kind, report.tokens[position]? = some ⟨text, kind, position⟩ ∧
      ((kind = .command ∨ kind = .option ∨ kind = .doubleDash) ↔
        report.tree.Recognizes report.config.inlineDelimiters (report.commandAt position) text)

variable {report : Report β} {option : SymbolId} {node : OptionNode β}

/-- The occurrences of an option are the tokens of its match, none if it was not matched. -/
theorem tokens_option? (report : Report β) (option : SymbolId) :
    (report.option? option).elim [] (·.tokens) = (report.occurrences option).map Reading.token := by
  rw [option?_eq]
  split
  · rfl
  · have hnone : report.occurrences option = [] := by
      rw [occurrences, List.filter_eq_nil_iff]
      intro reading hmem hmatched
      exact absurd (mem_optionIds.mpr (List.mem_filterMap.mpr ⟨reading, hmem, by simpa using hmatched⟩))
        ‹option ∉ report.optionIds›
    rw [hnone]
    rfl

/-- The occurrences of an option are in the order of the tokens. -/
theorem sublist_tokens (report : Report β) {found : OptionMatch} (hfound : found ∈ report.options) :
    found.tokens.Sublist report.tokens := by
  obtain ⟨option, -, rfl⟩ := List.mem_map.mp hfound
  exact List.filter_sublist.map Reading.token

/-- Every token that names an option is an occurrence of one. -/
theorem exists_option_of_kind (report : Report β) {token : Token} (htoken : token ∈ report.tokens)
    (hkind : token.kind = .option) : ∃ found ∈ report.options, token ∈ found.tokens := by
  obtain ⟨reading, hmem, rfl⟩ := List.mem_map.mp htoken
  obtain ⟨option, hoption⟩ := Reading.exists_option?_of_kind hkind
  refine ⟨_, List.mem_map_of_mem (mem_optionIds.mpr (List.mem_filterMap.mpr ⟨reading, hmem, hoption⟩)),
    List.mem_map_of_mem (List.mem_filter.mpr ⟨hmem, ?_⟩)⟩
  simpa using hoption

/-- The values of an option's argument are what the readings give to the option. -/
theorem Genuine.valuesOf_argument (h : report.Genuine)
    (hnode : report.tree.option? option = some node) :
    report.valuesOf node.argument = report.readings.flatMap (Reading.optionValues option) := by
  rw [h.valuesOf_eq]
  exact List.flatMap_congr fun reading hmem => (h.optionValues_eq_of_option? hnode hmem).symm

end Report

/-- Before `--`, the tokens that are read as names or as `--` are those that do not look plain. -/
theorem Cursor.Step.kind_iff {setting : Setting β} {cursor next : Cursor} {token : String}
    {meaning : Meaning} (h : Cursor.Step setting cursor token meaning next)
    (hdelimiters : ∀ d ∈ setting.config.inlineDelimiters, d.utf8Size = 1)
    (hliteral : cursor.literal = false) {reading : Reading} (hmeaning : reading.meaning = meaning) :
    (reading.kind = .command ∨ reading.kind = .option ∨ reading.kind = .doubleDash) ↔
      setting.sight cursor.command token ≠ .plain := by
  have hplain : cursor.PassesBy setting token → setting.sight cursor.command token = .plain := by
    rintro (htrue | hsight | htorn)
    · simp [hliteral] at htrue
    · exact hsight
    · exact absurd htorn (Setting.sight_ne_torn hdelimiters _ _)
  cases h with
  | doubleDash _ hsight => simp [Reading.kind, hmeaning, hsight]
  | command _ hsight => simp [Reading.kind, hmeaning, hsight]
  | option _ hsight => simp [Reading.kind, hmeaning, hsight]
  | inline _ hsight => simp [Reading.kind, hmeaning, hsight]
  | optionValue _ hpasses => simp [Reading.kind, hmeaning, hplain hpasses]
  | positional hpasses => simp [Reading.kind, hmeaning, hplain hpasses]
  | unmatched hpasses => simp [Reading.kind, hmeaning, hplain hpasses]

namespace CommandTree

variable {tree : CommandTree β} {config : Config} {start : SymbolId} {texts : List String}

/-- One occurrence takes as many values as the argument has room for, or one if it must not take
several. -/
theorem capacity_eq {setting : Setting β} {option : SymbolId} {node : OptionNode β}
    {argument : ArgumentNode} (hnode : setting.tree.option? option = some node)
    (hslot : setting.tree.slot? option = some argument) :
    setting.capacity option =
      if node.multi then argument.arity.most else min argument.arity.most 1 := by
  simp only [Setting.capacity, hnode, hslot]
  cases node.multi with
  | true => simp
  | false =>
    by_cases hzero : argument.arity.most = 0
    · simp [hzero]
    · simp only [hzero, Bool.false_eq_true, or_self, if_false]
      omega

/-- Where taking can end is said alike of places in a command line and of the tokens behind an
occurrence. -/
theorem endsRun_iff (hdelimiters : ∀ d ∈ config.inlineDelimiters, d.utf8Size = 1)
    {command option : SymbolId} {node : OptionNode β} {argument : ArgumentNode}
    (hnode : tree.option? option = some node) (hslot : tree.slot? option = some argument)
    {place stop : ℕ} (hplace : place < stop) :
    tree.EndsRun config.inlineDelimiters texts command node argument place stop ↔
      (Setting.of tree config).Halts command ((Setting.of tree config).taking option)
        (texts.drop (place + 1)) (stop - place - 1) := by
  have hstop : (texts.drop (place + 1))[stop - place - 1]? = texts[stop]? := by
    rw [List.getElem?_drop]
    congr 1
    omega
  have hroom : ((Setting.of tree config).taking option).room =
      if node.multi then argument.arity.most else min argument.arity.most 1 :=
    capacity_eq hnode hslot
  have hbool : ((Setting.of tree config).taking option).boolOnly = true ↔
      argument.type.isBool = true ∧ argument.arity.least = 0 := by
    change (tree.slot? option).any _ = true ↔ _
    rw [hslot]
    simp
  have hplain : ∀ token, (Setting.of tree config).sight command token ≠ .plain ↔
      tree.Recognizes config.inlineDelimiters command token := by
    intro token
    rw [Ne, Setting.sight_eq_plain_iff rfl hdelimiters, not_not]
    rfl
  rw [Setting.Halts, hstop, hroom, hbool]
  simp only [hplain]
  constructor
  · intro hends
    cases hends with
    | exhausted hend => exact .inl hend
    | full hfull => exact .inr (.inl hfull)
    | recognized htoken hrecognizes => exact .inr (.inr ⟨_, htoken, .inl hrecognizes⟩)
    | noTruth htoken hflag hread => exact .inr (.inr ⟨_, htoken, .inr ⟨hflag, hread⟩⟩)
  · rintro (hend | hfull | ⟨token, htoken, hrecognizes | ⟨hflag, hread⟩⟩)
    · exact .exhausted hend
    · exact .full hfull
    · exact .recognized htoken hrecognizes
    · exact .noTruth htoken hflag hread

/-- The run behind an occurrence goes up to the first place where taking can end. -/
theorem exists_stop (hdelimiters : ∀ d ∈ config.inlineDelimiters, d.utf8Size = 1)
    {option : SymbolId} {node : OptionNode β} {argument : ArgumentNode}
    (hnode : tree.option? option = some node) (hslot : tree.slot? option = some argument)
    (texts : List String) (command : SymbolId) (place : ℕ) :
    ∃ stop, (Setting.of tree config).run command ((Setting.of tree config).taking option)
          (texts.drop (place + 1)) = texts.extract (place + 1) stop ∧
      IsLeast {stop | place < stop ∧
        tree.EndsRun config.inlineDelimiters texts command node argument place stop} stop := by
  obtain ⟨htake, hhalts, hleast⟩ := (Setting.of tree config).run_spec command
    ((Setting.of tree config).taking option) (texts.drop (place + 1))
  generalize (Setting.of tree config).run command _ (texts.drop (place + 1)) = run at *
  refine ⟨place + 1 + run.length, ?_, ⟨by omega, ?_⟩, ?_⟩
  · rw [List.extract_eq_take_drop, Nat.add_sub_cancel_left]
    exact htake
  · rw [endsRun_iff hdelimiters hnode hslot (by omega),
      show place + 1 + run.length - place - 1 = run.length by omega]
    exact hhalts
  · rintro stop ⟨hbehind, hends⟩
    have hcount : run.length ≤ stop - place - 1 :=
      hleast ((endsRun_iff hdelimiters hnode hslot hbehind).mp hends)
    omega

/-- The values in an option's own token are cut at commas if one occurrence may take several. -/
theorem inlineValues_eq {setting : Setting β} {option : SymbolId} {node : OptionNode β}
    {argument : ArgumentNode} (hnode : setting.tree.option? option = some node)
    (hslot : setting.tree.slot? option = some argument) (value : String) :
    setting.inlineValues option value = if node.multi = true ∧ 1 < argument.arity.most then
        (value.toList.splitOn ',').map String.ofList
      else [value] := by
  rw [Setting.inlineValues, capacity_eq hnode hslot]
  refine if_congr ?_ rfl rfl
  cases node.multi with
  | true => simp
  | false => exact iff_of_false (Nat.not_lt.mpr (Nat.min_le_right _ 1)) (by simp)

/-- What an occurrence gives to its option is what it takes. -/
theorem WellFormed.takes (h : tree.WellFormed)
    (hdelimiters : ∀ d ∈ config.inlineDelimiters, d.utf8Size = 1) (texts : List String)
    {reading : Reading} (hsound : reading.Sound (Setting.of tree config)) {option : SymbolId}
    (hoption : reading.option? = some option) :
    tree.Takes config.inlineDelimiters texts reading.command option reading.token
      ((Setting.of tree config).taken texts reading) := by
  obtain ⟨text, position, command, meaning⟩ := reading
  have hresolved : (tree.option? option).isSome := by
    obtain ⟨name, hresolve⟩ : ∃ name, (tree.scope command).resolve name = some option := by
      rcases hsound.sight_of_option? hoption with hsight | ⟨value, hsight⟩
      · exact Setting.exists_resolve_of_sight hsight
      · exact Setting.exists_resolve_of_sight hsight
    exact h.isSome_of_resolve hresolve
  obtain ⟨inline, rfl⟩ : ∃ inline, meaning = .option option inline :=
    Reading.exists_meaning_of_option? hoption
  obtain ⟨node, hnode⟩ := Option.isSome_iff_exists.mp hresolved
  obtain ⟨argument, hargument⟩ := Option.isSome_iff_exists.mp (h.of_option? hnode).1
  have hslot : tree.slot? option = some argument := by
    rw [slot?, hnode]
    exact hargument
  rcases hsound with ⟨hsight, rfl⟩ | ⟨value, hsight, rfl⟩
  · obtain ⟨stop, hrun, hstop⟩ := exists_stop hdelimiters hnode hslot texts command position
    change tree.Takes _ _ _ _ _ ((Setting.of tree config).run command _ _)
    rw [hrun]
    exact .behind hnode hslot (Setting.resolve_of_sight hsight) hstop
  · obtain ⟨name, hsplit, hresolve⟩ := Setting.split_of_sight hsight
    rw [Setting.taken_inline, inlineValues_eq hnode hslot]
    exact .inline hnode hslot (Setting.resolve_eq_none_of_sight hsight)
      (Inline.cuts_of_split hsplit) hresolve

/-- Reading the tokens behind a command line's beginning gives to an option what its occurrences
take. -/
theorem raws_report (hdelimiters : ∀ d ∈ config.inlineDelimiters, d.utf8Size = 1)
    (texts : List String) (option : SymbolId) :
    ((tree.report config start texts).readings.flatMap (Reading.optionValues option)).map (·.text) =
      ((tree.report config start texts).occurrences option).flatMap
        ((Setting.of tree config).taken texts) := by
  obtain ⟨tail, htail, hvalues⟩ := @Cursor.optionValues_foldl_step _ (Setting.of tree config)
    (Cursor.start (Setting.of tree config) start) hdelimiters nofun option [] rfl texts
  have hreadings : (tree.report config start texts).readings = tail := htail
  rw [Report.occurrences, hreadings, hvalues]
  rfl

/-- Before `--`, names and `--` are the tokens that are recognized at the command that is current. -/
theorem WellFormed.exists_kind (h : tree.WellFormed)
    (hdelimiters : ∀ d ∈ config.inlineDelimiters, d.utf8Size = 1) {position : ℕ} {text : String}
    (htext : texts[position]? = some text) (hdash : "--" ∉ texts.take position) :
    ∃ kind, (tree.report config start texts).tokens[position]? = some ⟨text, kind, position⟩ ∧
      ((kind = .command ∨ kind = .option ∨ kind = .doubleDash) ↔
        tree.Recognizes config.inlineDelimiters
          ((tree.report config start texts).commandAt position) text) := by
  obtain ⟨hposition, rfl⟩ := List.getElem?_eq_some_iff.mp htext
  have hlt : position < (tree.report config start texts).readings.length := by
    rwa [length_readings_report]
  have hreading := List.getElem?_eq_getElem hlt
  obtain ⟨before, after, next, htexts, hlength, hshape, hstep⟩ := exists_step_of_getElem? hreading
  have hmem := List.getElem_mem hlt
  generalize (tree.report config start texts).readings[position] = reading at *
  have hsame : texts[position] = reading.text := by
    simp only [htexts]
    rw [List.getElem_append_right (by omega)]
    simp [hlength]
  have hplace : reading.position = position := by rw [hshape]
  have hcommand : (tree.report config start texts).commandAt position =
      (tree.cursorAfter config start before).command := by
    rw [← hplace, (h.genuine texts).commandAt_eq hmem, hshape]
  rw [htexts, ← hlength, List.take_left] at hdash
  have hliteral := Cursor.literal_foldl_step (Setting.of tree config)
    (show (Cursor.start (Setting.of tree config) start).literal = false from rfl) hdash
  refine ⟨reading.kind, ?_, ?_⟩
  · rw [Report.tokens, List.getElem?_map, hreading, Option.map_some, hsame, Reading.token, hplace]
  · rw [hstep.kind_iff hdelimiters hliteral rfl, hcommand, hsame, Ne,
      Setting.sight_eq_plain_iff rfl hdelimiters, not_not]
    rfl

/-- From a command of a reachable tree, with delimiters of one byte, every command line is parsed.
The values of each option are what its occurrences take, each a run of tokens that is as long as it
can be; and up to the first `--` exactly the recognized tokens are read as names or as `--`. -/
theorem exists_consumes (h : Reachable tree) (hstart : (tree.command? start).isSome)
    (hdelimiters : ∀ d ∈ config.inlineDelimiters, d.utf8Size = 1) (texts : List String) :
    ∃ report, tree.parse config start texts = .ok report ∧ report.Consumes texts := by
  have hgenuine := @WellFormed.genuine β tree config start h.wellFormed texts
  refine ⟨_, parse_eq_report (isSome_symbol?_of_command? hstart) hdelimiters texts,
    fun _ => Report.sublist_tokens _, fun _ => Report.exists_option_of_kind _, ?_,
    fun position text htext hdash => h.wellFormed.exists_kind hdelimiters htext hdash⟩
  intro option node hnode
  refine ⟨((tree.report config start texts).occurrences option).map
    ((Setting.of tree config).taken texts), ?_, ?_⟩
  · rw [Report.tokens_option?, List.forall₂_map_left_iff, List.forall₂_map_right_iff,
      List.forall₂_same]
    intro reading hmem
    obtain ⟨hmem, hoption⟩ := List.mem_filter.mp hmem
    rw [show reading.token.position = reading.position from rfl, hgenuine.commandAt_eq hmem]
    exact h.wellFormed.takes hdelimiters texts (hgenuine.trace.sound hmem) (by simpa using hoption)
  · rw [hgenuine.valuesOf_argument hnode, raws_report hdelimiters, List.flatMap_def]

/-- Two occurrences take values: one behind it up to a subcommand, one in its own token. -/
theorem exists_consumes_sample : ∃ report,
    sample.parse {} root ["-t", "a", "build", "--tag=a,a", "a", "--", "--tag=a", "build"] =
      .ok report ∧
    report.Consumes ["-t", "a", "build", "--tag=a,a", "a", "--", "--tag=a", "build"] :=
  exists_consumes reachable_sample (by decide) Config.utf8Size_eq_one _

end CommandTree

end CommandLine
