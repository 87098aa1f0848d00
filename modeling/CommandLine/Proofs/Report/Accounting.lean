import CommandLine.Proofs.CommandTree.WellFormed
import CommandLine.Proofs.Reading.Recognition
import CommandLine.Proofs.Report.Bindings

/-!
# Every token is accounted for once

A report has one token for each text of its command line, and each token has one place in it: the
command it names, the option it is an occurrence of, the argument it is a value of, or the list of
tokens that match nothing. The only values that are not tokens of their own are those written
behind a delimiter in the token of their option.

Positions keep the tokens apart, since one text may be given several times.
-/

namespace CommandLine

variable {β : Type}

/-! ## Values behind a delimiter -/

namespace Inline

/-- A text behind the first delimiter of a token: all that follows, or a piece between commas. -/
def IsPart (delimiters : List Char) (token text : String) : Prop :=
  ∃ before delimiter after, token.toList = before ++ delimiter :: after ∧
    delimiter ∈ delimiters ∧ (∀ c ∈ before, c ∉ delimiters) ∧
    (text.toList = after ∨ text.toList ∈ after.splitOn ',')

end Inline

/-- The values in an option's own token are the text behind the delimiter, or its pieces. -/
theorem Setting.mem_inlineValues {setting : Setting β} {option : SymbolId} {value text : String}
    (h : text ∈ setting.inlineValues option value) :
    text.toList = value.toList ∨ text.toList ∈ value.toList.splitOn ',' := by
  unfold inlineValues at h
  split at h
  · obtain ⟨piece, hpiece, rfl⟩ := List.mem_map.mp h
    rw [String.toList_ofList]
    exact Or.inr hpiece
  · rw [List.mem_singleton.mp h]
    exact Or.inl rfl

/-- The values that a reading gives together with its option are parts of its text. -/
theorem Reading.Sound.isPart {setting : Setting β} {reading : Reading} {option : SymbolId}
    {inline : List String} {text : String} (h : reading.Sound setting)
    (hmeaning : reading.meaning = .option option inline) (htext : text ∈ inline) :
    Inline.IsPart setting.config.inlineDelimiters reading.text text := by
  unfold Sound at h
  rw [hmeaning] at h
  rcases h with ⟨-, rfl⟩ | ⟨value, hsight, rfl⟩
  · simp at htext
  · obtain ⟨before, hsplit, -⟩ := Setting.split_of_sight hsight
    obtain ⟨⟨delimiter, hdelimiter, htoken⟩, hbefore, -⟩ := Inline.cuts_of_split hsplit
    exact ⟨_, delimiter, _, htoken, hdelimiter, hbefore, Setting.mem_inlineValues htext⟩

namespace Reading

/-- A token of kind command names one. -/
theorem exists_descent?_of_kind {reading : Reading} (h : reading.token.kind = .command) :
    ∃ id, reading.descent? = some id := by
  unfold token kind at h
  unfold descent?
  cases hmeaning : reading.meaning <;> simp_all

/-- A token of kind option names one. -/
theorem exists_option?_of_kind {reading : Reading} (h : reading.token.kind = .option) :
    ∃ id, reading.option? = some id := by
  unfold token kind at h
  unfold option?
  cases hmeaning : reading.meaning <;> simp_all

/-- A token of kind argument is itself the value that its reading gives. -/
theorem given_of_kind {reading : Reading} (h : reading.token.kind = .argument) :
    reading.given = [⟨reading.text, reading.position⟩] := by
  unfold token kind at h
  unfold given
  cases hmeaning : reading.meaning <;> simp_all

/-- Every value that a reading gives has the position of the reading. -/
theorem position_of_mem_given {reading : Reading} {value : Bound} (h : value ∈ reading.given) :
    value.position = reading.position := by
  unfold given at h
  split at h
  · obtain ⟨text, -, rfl⟩ := List.mem_map.mp h
    rfl
  · rw [List.mem_singleton.mp h]
  · rw [List.mem_singleton.mp h]
  · simp at h

end Reading

namespace Report

/-- Each token of a command line has its one place in a report, and each value comes from one. -/
structure Accounts (report : Report β) (texts : List String) : Prop where
  tokens : report.tokens.map (fun token => (token.text, token.position)) = texts.zipIdx
  /-- A token that names a command is the token of one command after the first. -/
  command : ∀ token ∈ report.tokens, token.kind = .command →
    report.path.tail.countP (·.token = some token) = 1
  /-- A token that names an option is among the tokens of one option. -/
  option : ∀ token ∈ report.tokens, token.kind = .option →
    report.options.countP (token ∈ ·.tokens) = 1
  unparsed : report.tokens.filter (·.kind = .unparsed) = report.unmatched
  /-- A token that is a value is held once, by one binding. -/
  argument : ∀ token ∈ report.tokens, token.kind = .argument →
    (report.bindings.flatMap (·.values)).count ⟨token.text, token.position⟩ = 1
  /-- Any other value stands in a token that names the option whose binding holds it. -/
  value : ∀ binding ∈ report.bindings, ∀ value ∈ binding.values,
    (∃ token ∈ report.tokens, token.kind = .argument ∧ value = ⟨token.text, token.position⟩) ∨
      ∃ found ∈ report.options, found.binding = binding ∧
        ∃ token ∈ found.tokens, token.kind = .option ∧ token.position = value.position ∧
          Inline.IsPart report.config.inlineDelimiters token.text value.text

variable {report : Report β}

namespace Genuine

variable {reading other : Reading} {binding : Binding}

/-- No reading occurs twice. -/
theorem nodup_readings (h : report.Genuine) : report.readings.Nodup :=
  h.trace.nodup_positions.of_map _

/-- Different readings make different tokens. -/
theorem token_inj (h : report.Genuine) (hmem : reading ∈ report.readings)
    (hother : other ∈ report.readings) : reading.token = other.token ↔ reading = other := by
  refine ⟨fun htoken => ?_, fun heq => by rw [heq]⟩
  exact h.trace.eq_of_position_eq hmem hother (congrArg Token.position htoken)

/-- The readings of some texts have the texts in order, each with its own position. -/
theorem map_text_position (h : report.Genuine) {texts : List String}
    (htexts : report.readings.map (·.text) = texts) :
    report.readings.map (fun reading => (reading.text, reading.position)) =
      texts.zip (List.range texts.length) := by
  have hlength : texts.length = report.readings.length := by
    rw [← htexts, List.length_map]
  rw [← List.zip_map', htexts, hlength, h.trace.positions]

/-- A token is an occurrence of an option if its reading is. -/
theorem mem_tokens_iff (h : report.Genuine) (hmem : reading ∈ report.readings)
    {option : SymbolId} :
    reading.token ∈ (report.optionMatch option).tokens ↔ reading.option? = some option := by
  unfold optionMatch occurrences
  simp only [List.mem_map, List.mem_filter, decide_eq_true_eq]
  constructor
  · rintro ⟨other, ⟨hother, hoption⟩, htoken⟩
    rwa [← (h.token_inj hother hmem).mp htoken]
  · intro hoption
    exact ⟨reading, ⟨hmem, hoption⟩, rfl⟩

/-- The token of a descent is the token of one command after the first. -/
theorem countP_path_tail (h : report.Genuine) (hmem : reading ∈ report.readings)
    (hkind : reading.token.kind = .command) :
    report.path.tail.countP (·.token = some reading.token) = 1 := by
  obtain ⟨id, hdescent⟩ := Reading.exists_descent?_of_kind hkind
  have hcount : report.path.tail.countP (·.token = some reading.token) =
      report.readings.count reading := by
    unfold path
    rw [List.tail_cons, List.countP_filterMap, List.count]
    refine List.countP_congr fun other hother => ?_
    by_cases heq : other = reading
    · subst other
      simp [hdescent, commandMatch]
    · have htoken : other.token ≠ reading.token := fun htoken =>
        heq ((h.token_inj hother hmem).mp htoken)
      cases hother : other.descent? <;> simp [commandMatch, htoken, heq]
  rw [hcount]
  exact List.count_eq_one_of_mem h.nodup_readings hmem

/-- The token of an occurrence is among the tokens of one option. -/
theorem countP_options (h : report.Genuine) (hmem : reading ∈ report.readings)
    (hkind : reading.token.kind = .option) :
    report.options.countP (reading.token ∈ ·.tokens) = 1 := by
  obtain ⟨option, hoption⟩ := Reading.exists_option?_of_kind hkind
  have hcount : report.options.countP (reading.token ∈ ·.tokens) =
      report.optionIds.count option := by
    unfold options
    rw [List.countP_map, List.count]
    refine List.countP_congr fun other _ => ?_
    simp only [Function.comp_apply, h.mem_tokens_iff hmem, hoption, decide_eq_true_eq,
      Option.some.injEq, beq_iff_eq]
    exact eq_comm
  rw [hcount]
  refine List.count_eq_one_of_mem (nodup_optionIds report) (mem_optionIds.mpr ?_)
  exact List.mem_filterMap.mpr ⟨reading, hmem, hoption⟩

/-- The tokens that match nothing are those of kind unparsed. -/
theorem filter_tokens (report : Report β) :
    report.tokens.filter (·.kind = .unparsed) = report.unmatched := by
  unfold tokens unmatched unmatchedReadings
  rw [List.filter_map]
  congr 1
  refine List.filter_congr fun reading _ => ?_
  unfold Reading.token Reading.kind
  cases hmeaning : reading.meaning <;> simp [hmeaning]

/-- The text of a value's token is held once among all bindings. -/
theorem count_values (h : report.Genuine) (hmem : reading ∈ report.readings)
    (hkind : reading.token.kind = .argument) :
    (report.bindings.flatMap (·.values)).count ⟨reading.text, reading.position⟩ = 1 := by
  rw [h.values_perm.count_eq]
  obtain ⟨before, after, hsplit⟩ := List.append_of_mem hmem
  refine Sequence.count_flatMap_eq_one hsplit (Reading.given_of_kind hkind) ?_
  intro other hother hgiven
  -- Another reading may give the same text, but not at the same position.
  have hposition : other.position = reading.position := (Reading.position_of_mem_given hgiven).symm
  have hnodup := h.nodup_readings
  rw [hsplit] at hnodup
  have hne : other ≠ reading := by
    rintro rfl
    exact (List.nodup_middle.mp hnodup).notMem hother
  refine hne (h.trace.eq_of_position_eq ?_ hmem hposition)
  rw [hsplit]
  exact List.perm_middle.symm.subset (List.mem_cons_of_mem _ hother)

/-- A value of a binding is a token, or a part of a token of the option that has the binding. -/
theorem value_cases (h : report.Genuine) (hbinding : binding ∈ report.bindings) {value : Bound}
    (hvalue : value ∈ binding.values) :
    (∃ token ∈ report.tokens, token.kind = .argument ∧ value = ⟨token.text, token.position⟩) ∨
      ∃ found ∈ report.options, found.binding = binding ∧
        ∃ token ∈ found.tokens, token.kind = .option ∧ token.position = value.position ∧
          Inline.IsPart report.config.inlineDelimiters token.text value.text := by
  rw [h.values_eq hbinding] at hvalue
  obtain ⟨reading, hmem, hvalue⟩ := List.mem_flatMap.mp hvalue
  split at hvalue
  · rename_i hholder
    unfold holder? at hholder
    unfold Reading.given at hvalue
    cases hmeaning : reading.meaning with
    | option option inline =>
      simp only [hmeaning, Option.some.injEq] at hholder hvalue
      obtain ⟨text, htext, rfl⟩ := List.mem_map.mp hvalue
      have hoption := h.mem_optionIds_of_reading hmem (Or.inl ⟨inline, hmeaning⟩)
      have hoccurrence : reading.option? = some option := by simp [Reading.option?, hmeaning]
      have hfound : report.optionMatch option ∈ report.options := List.mem_map_of_mem hoption
      refine Or.inr ⟨_, hfound, ?_, reading.token, (h.mem_tokens_iff hmem).mpr hoccurrence, ?_, rfl,
        (h.trace.sound hmem).isPart hmeaning htext⟩
      · exact h.eq_of_argument_eq (List.mem_append_right _ (List.mem_map_of_mem hfound)) hbinding
          hholder
      · simp [Reading.token, Reading.kind, hmeaning]
    | optionValue option =>
      rw [hmeaning] at hvalue
      exact Or.inl ⟨_, List.mem_map_of_mem hmem, by simp [Reading.token, Reading.kind, hmeaning],
        List.mem_singleton.mp hvalue⟩
    | positional argument =>
      rw [hmeaning] at hvalue
      exact Or.inl ⟨_, List.mem_map_of_mem hmem, by simp [Reading.token, Reading.kind, hmeaning],
        List.mem_singleton.mp hvalue⟩
    | _ => simp [hmeaning] at hholder
  · simp at hvalue

end Genuine

end Report

namespace CommandTree

variable {tree : CommandTree β} {config : Config} {start : SymbolId}

/-- A report of a well-formed tree accounts for the tokens that it was made from. -/
theorem WellFormed.accounts (h : tree.WellFormed) (texts : List String) :
    (tree.report config start texts).Accounts texts := by
  have hgenuine := @WellFormed.genuine β tree config start h texts
  have hreadings : ∀ token ∈ (tree.report config start texts).tokens,
      ∃ reading ∈ (tree.report config start texts).readings, reading.token = token :=
    fun token htoken => List.mem_map.mp htoken
  refine ⟨?_, ?_, ?_, Report.Genuine.filter_tokens _, ?_, ?_⟩
  · unfold Report.tokens
    rw [List.map_map, List.zipIdx_eq_zip_range', ← List.range_eq_range']
    exact hgenuine.map_text_position (texts_report texts)
  · intro token htoken hkind
    obtain ⟨reading, hmem, rfl⟩ := hreadings token htoken
    exact hgenuine.countP_path_tail hmem hkind
  · intro token htoken hkind
    obtain ⟨reading, hmem, rfl⟩ := hreadings token htoken
    exact hgenuine.countP_options hmem hkind
  · intro token htoken hkind
    obtain ⟨reading, hmem, rfl⟩ := hreadings token htoken
    exact hgenuine.count_values hmem hkind
  · intro binding hbinding value hvalue
    exact hgenuine.value_cases hbinding hvalue

/-- From a command of a reachable tree, with delimiters of one byte, every command line is parsed,
and the report accounts for each of its tokens once. -/
theorem exists_accounts (h : Reachable tree) (hstart : (tree.command? start).isSome)
    (hdelimiters : ∀ d ∈ config.inlineDelimiters, d.utf8Size = 1) (texts : List String) :
    ∃ report, tree.parse config start texts = .ok report ∧ report.Accounts texts :=
  ⟨_, parse_eq_report (isSome_symbol?_of_command? hstart) hdelimiters texts,
    h.wellFormed.accounts texts⟩

/-- Repeated texts, values behind a delimiter and tokens after `--` are all accounted for. -/
theorem exists_accounts_sample : ∃ report,
    sample.parse {} root ["-t", "a", "build", "--tag=a,a", "a", "--", "--tag=a", "build"] =
      .ok report ∧
    report.Accounts ["-t", "a", "build", "--tag=a,a", "a", "--", "--tag=a", "build"] :=
  exists_accounts reachable_sample (by decide) Config.utf8Size_eq_one _

end CommandTree

end CommandLine
