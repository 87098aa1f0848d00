import CommandLine.Proofs.Report.Genuine
import CommandLine.Report.Diagnosis
import CommandLine.Report.Selection

/-!
# What comes after `--`

After `--` the rest of a command line is literal: every token is a value of a positional argument
or matches nothing, whatever it looks like. So two command lines that differ only after `--` agree
in their commands, in their options with all values and conversions, and in the actions they set
off; and so does the command line that ends in front of `--`.

An option that is taking values stops at `--` as it does at the end. This needs no argument of its
own: the readings of a command line begin with the readings of each of its beginnings.
-/

namespace CommandLine

variable {β : Type}

namespace Reading

/-- A reading that names no command and no option, and gives no value to an option. -/
structure Inert (reading : Reading) : Prop where
  descent? : reading.descent? = none
  option? : reading.option? = none
  optionValues : ∀ option, reading.optionValues option = []

/-- A reading of a token after `--`: a value of a positional argument, or one of nothing. -/
def Literal (reading : Reading) : Prop :=
  (∃ argument, reading.meaning = .positional argument) ∨ reading.meaning = .unmatched

variable {reading : Reading}

/-- The reading of `--` is inert. -/
theorem inert_of_doubleDash (h : reading.meaning = .doubleDash) : reading.Inert := by
  constructor <;> simp [Reading.descent?, Reading.option?, Reading.optionValues, h]

/-- A literal reading is inert. -/
theorem Literal.inert (h : reading.Literal) : reading.Inert := by
  rcases h with ⟨argument, h⟩ | h <;>
    constructor <;> simp [Reading.descent?, Reading.option?, Reading.optionValues, h]

/-- The token of a literal reading is a value or unparsed. -/
theorem Literal.kind (h : reading.Literal) :
    reading.token.kind = .argument ∨ reading.token.kind = .unparsed := by
  unfold Reading.token Reading.kind
  rcases h with ⟨argument, h⟩ | h <;> simp [h]

end Reading

/-! ## Reading after `--` -/

namespace Cursor

variable {setting : Setting β} {cursor next : Cursor} {token : String} {meaning : Meaning}

/-- In literal mode a step adds a literal reading and stays in literal mode. -/
theorem Step.literal_meaning (h : Step setting cursor token meaning next)
    (hliteral : cursor.literal = true) :
    (∃ argument, meaning = .positional argument) ∨ meaning = .unmatched := by
  cases h with
  | positional hplain htaking hslots => exact Or.inl ⟨_, rfl⟩
  | unmatched hplain htaking hslots => exact Or.inr rfl
  | doubleDash hfalse hsight => simp [hliteral] at hfalse
  | command hfalse hsight => simp [hliteral] at hfalse
  | option hfalse hsight => simp [hliteral] at hfalse
  | inline hfalse hsight => simp [hliteral] at hfalse
  | optionValue hfalse hplain htaking haccepts => simp [hliteral] at hfalse

/-- Only `--` is read as such. -/
theorem Step.token_eq (h : Step setting cursor token meaning next)
    (hmeaning : meaning = .doubleDash) : token = "--" := by
  cases h with
  | doubleDash hliteral hsight => exact Setting.sight_eq_doubleDash_iff.mp hsight
  | _ => cases hmeaning

/-- In literal mode all further readings are literal. -/
theorem foldl_step_of_literal (setting : Setting β) (tokens : List String)
    (hliteral : cursor.literal = true) :
    ∃ tail, (tokens.foldl (Cursor.step setting) cursor).readings = cursor.readings ++ tail ∧
      ∀ reading ∈ tail, reading.Literal := by
  induction tokens generalizing cursor with
  | nil => exact ⟨[], by simp⟩
  | cons token tokens ih =>
    obtain ⟨meaning, hstep⟩ := step_cases setting cursor token
    obtain ⟨tail, htail, hall⟩ := ih (by rw [hstep.literal_eq, hliteral, Bool.true_or])
    refine ⟨⟨token, cursor.readings.length, cursor.command, meaning⟩ :: tail, ?_, ?_⟩
    · rw [List.foldl_cons, htail, hstep.readings, List.append_assoc]
      rfl
    · rw [List.forall_mem_cons]
      exact ⟨hstep.literal_meaning hliteral, hall⟩

/-- Without `--` reading does not get into literal mode. -/
theorem literal_foldl_step (setting : Setting β) {tokens : List String}
    (hliteral : cursor.literal = false) (htokens : "--" ∉ tokens) :
    (tokens.foldl (Cursor.step setting) cursor).literal = false := by
  induction tokens generalizing cursor with
  | nil => exact hliteral
  | cons token tokens ih =>
    rw [List.mem_cons, not_or] at htokens
    obtain ⟨meaning, hstep⟩ := step_cases setting cursor token
    refine ih ?_ htokens.2
    rw [hstep.literal_eq, hliteral, Bool.false_or, decide_eq_false_iff_not]
    intro hmeaning
    exact htokens.1 (hstep.token_eq hmeaning).symm

/-- Outside literal mode `--` is read as such. -/
theorem step_doubleDash (hliteral : cursor.literal = false) :
    cursor.step setting "--" =
      { cursor.record "--" .doubleDash with taking := none, literal := true } := by
  have hsight : setting.sight cursor.command "--" = .doubleDash :=
    Setting.sight_eq_doubleDash_iff.mpr rfl
  unfold step
  rw [hliteral, hsight]
  rfl

end Cursor

/-! ## Reports with further readings -/

namespace Report

/-- The report with more readings at the end. -/
def extend (report : Report β) (tail : List Reading) : Report β :=
  { report with readings := report.readings ++ tail }

/-- What a report says of a command on the path apart from its positional arguments. -/
def outline (report : Report β) : List (SymbolId × Option Token × List SymbolId) :=
  report.path.map fun found => (found.command, found.token, found.options)

/-- Two reports that agree in commands, options and actions. -/
structure Agree (first second : Report β) : Prop where
  /-- The commands of the path, with the tokens that named them and the options under them. -/
  outline : first.outline = second.outline
  terminal : first.terminal = second.terminal
  /-- The matched options, with their occurrences and raw values. -/
  options : first.options = second.options
  /-- What becomes of the options' values, conversions included. -/
  settlements : first.options.map (fun found => first.settle found.binding) =
    second.options.map fun found => second.settle found.binding
  selection : first.selection = second.selection
  action? : first.action? = second.action?
  actionsAhead : first.actionsAhead = second.actionsAhead

/-- A report in which `--` stands after a number of tokens, and makes the others literal. -/
structure LiteralAfter (report : Report β) (count : ℕ) : Prop where
  getElem? : report.tokens[count]? = some ⟨"--", .doubleDash, count⟩
  filter : report.tokens.filter (·.kind = .doubleDash) = [⟨"--", .doubleDash, count⟩]
  drop : ∀ token ∈ report.tokens.drop (count + 1), token.kind = .argument ∨ token.kind = .unparsed

variable {report first second third : Report β} {tail : List Reading}

/-- Agreement can be read either way. -/
theorem Agree.symm (h : first.Agree second) : second.Agree first :=
  ⟨h.outline.symm, h.terminal.symm, h.options.symm, h.settlements.symm, h.selection.symm,
    h.action?.symm, h.actionsAhead.symm⟩

/-- Agreement can be passed on. -/
theorem Agree.trans (h : first.Agree second) (hsecond : second.Agree third) : first.Agree third :=
  ⟨h.outline.trans hsecond.outline, h.terminal.trans hsecond.terminal,
    h.options.trans hsecond.options, h.settlements.trans hsecond.settlements,
    h.selection.trans hsecond.selection, h.action?.trans hsecond.action?,
    h.actionsAhead.trans hsecond.actionsAhead⟩

/-- What inert readings have nothing of is the same in an extended report. -/
theorem filterMap_readings_extend {A : Type} {view : Reading → Option A}
    (h : ∀ reading ∈ tail, view reading = none) :
    (report.extend tail).readings.filterMap view = report.readings.filterMap view := by
  have htail : tail.filterMap view = [] := List.filterMap_eq_nil_iff.mpr h
  rw [extend, List.filterMap_append, htail, List.append_nil]

/-- Inert readings do not change the deepest command. -/
theorem terminal_extend (h : ∀ reading ∈ tail, reading.Inert) :
    (report.extend tail).terminal = report.terminal := by
  unfold terminal
  rw [filterMap_readings_extend fun reading hmem => (h reading hmem).descent?]
  rfl

/-- Inert readings match no further option. -/
theorem optionIds_extend (h : ∀ reading ∈ tail, reading.Inert) :
    (report.extend tail).optionIds = report.optionIds := by
  unfold optionIds
  rw [filterMap_readings_extend fun reading hmem => (h reading hmem).option?]

/-- Inert readings add nothing to an option. -/
theorem optionMatch_extend (h : ∀ reading ∈ tail, reading.Inert) (option : SymbolId) :
    (report.extend tail).optionMatch option = report.optionMatch option := by
  have hoccurrences : (report.extend tail).occurrences option = report.occurrences option := by
    unfold occurrences extend
    rw [List.filter_append, List.append_right_eq_self, List.filter_eq_nil_iff]
    intro reading hmem
    simp [(h reading hmem).option?]
  have hvalues : (report.extend tail).readings.flatMap (Reading.optionValues option) =
      report.readings.flatMap (Reading.optionValues option) := by
    unfold extend
    rw [List.flatMap_append, List.append_right_eq_self, List.flatMap_eq_nil_iff]
    exact fun reading hmem => (h reading hmem).optionValues option
  unfold optionMatch
  rw [hoccurrences, hvalues]
  rfl

/-- Inert readings leave all options as they are. -/
theorem options_extend (h : ∀ reading ∈ tail, reading.Inert) :
    (report.extend tail).options = report.options := by
  unfold options
  rw [optionIds_extend h]
  exact List.map_congr_left fun option _ => optionMatch_extend h option

/-- The outline of a report in terms of its readings. -/
theorem outline_eq (report : Report β) :
    report.outline =
      (report.start, none, (report.options.filter (·.command = report.start)).map (·.option)) ::
        report.readings.filterMap fun reading => reading.descent?.map fun command =>
          (command, some reading.token,
            (report.options.filter (·.command = command)).map (·.option)) := by
  unfold outline path
  rw [List.map_cons, List.map_filterMap]
  congr 1
  refine List.filterMap_congr fun reading _ => ?_
  rw [Option.map_map]
  rfl

/-- Inert readings leave the outline as it is. -/
theorem outline_extend (h : ∀ reading ∈ tail, reading.Inert) :
    (report.extend tail).outline = report.outline := by
  rw [outline_eq, outline_eq, options_extend h, filterMap_readings_extend]
  · rfl
  · intro reading hmem
    rw [(h reading hmem).descent?]
    rfl

/-- Inert readings do not change what is selected. -/
theorem selection_extend (h : ∀ reading ∈ tail, reading.Inert) :
    (report.extend tail).selection = report.selection := by
  unfold selection actingOptions
  rw [optionIds_extend h, terminal_extend h]
  rfl

/-- A report agrees with every extension by inert readings. -/
theorem agree_extend (h : ∀ reading ∈ tail, reading.Inert) :
    (report.extend tail).Agree report := by
  refine ⟨outline_extend h, terminal_extend h, options_extend h, ?_, selection_extend h, ?_, ?_⟩
  · rw [options_extend h]
    rfl
  · unfold action?
    rw [selection_extend h]
    rfl
  · unfold actionsAhead
    rw [selection_extend h]
    rfl

/-- Literal readings after one of `--`, and none of `--` before it, leave one `--` in a report. -/
theorem literalAfter_extend {count : ℕ} {command : SymbolId}
    (hcount : report.readings.length = count)
    (hbefore : ∀ reading ∈ report.readings, reading.token.kind ≠ .doubleDash)
    (htail : ∀ reading ∈ tail, reading.Literal) :
    (report.extend (⟨"--", count, command, .doubleDash⟩ :: tail)).LiteralAfter count := by
  have htokens : (report.extend (⟨"--", count, command, .doubleDash⟩ :: tail)).tokens =
      report.tokens ++ ⟨"--", .doubleDash, count⟩ :: tail.map Reading.token := by
    unfold tokens extend
    rw [List.map_append, List.map_cons]
    rfl
  have hlength : report.tokens.length = count := by
    unfold tokens
    rw [List.length_map, hcount]
  refine ⟨?_, ?_, ?_⟩
  · rw [htokens, List.getElem?_append_right (by omega), hlength, Nat.sub_self]
    rfl
  · rw [htokens, List.filter_append, List.filter_eq_nil_iff.mpr, List.nil_append,
      List.filter_cons_of_pos (by rfl), List.filter_eq_nil_iff.mpr]
    · intro token htoken
      obtain ⟨reading, hmem, rfl⟩ := List.mem_map.mp htoken
      rcases (htail reading hmem).kind with hkind | hkind <;> simp [hkind]
    · intro token htoken
      obtain ⟨reading, hmem, rfl⟩ := List.mem_map.mp htoken
      simpa using hbefore reading hmem
  · intro token htoken
    rw [htokens, List.drop_add_one_eq_tail_drop, List.drop_left' hlength, List.tail_cons] at htoken
    obtain ⟨reading, hmem, rfl⟩ := List.mem_map.mp htoken
    exact (htail reading hmem).kind

end Report

namespace CommandTree

variable {tree : CommandTree β} {config : Config} {start : SymbolId} {before : List String}

/-- There is one reading for each token of a command line. -/
theorem length_readings_report (tokens : List String) :
    (tree.report config start tokens).readings.length = tokens.length := by
  have htexts := congrArg List.length (@texts_report β tree config start tokens)
  rwa [List.length_map] at htexts

/-- A command line without `--` has no token of that kind. -/
theorem kind_ne_doubleDash (hbefore : "--" ∉ before) :
    ∀ reading ∈ (tree.report config start before).readings,
      reading.token.kind ≠ .doubleDash := by
  intro reading hmem hkind
  have hmeaning : reading.meaning = .doubleDash := by
    unfold Reading.token Reading.kind at hkind
    cases hmeaning : reading.meaning <;> simp_all
  have hsound := (consistent_cursorAfter before).trace.sound hmem
  unfold Reading.Sound at hsound
  rw [hmeaning] at hsound
  have htext := List.mem_map_of_mem (f := (·.text)) hmem
  rw [texts_report, Setting.sight_eq_doubleDash_iff.mp hsound] at htext
  exact hbefore htext

/-- A command line with `--` is read like its part before `--`, and then literally. -/
theorem exists_report_doubleDash (hbefore : "--" ∉ before) (after : List String) :
    ∃ command tail, (∀ reading ∈ tail, reading.Literal) ∧
      tree.report config start (before ++ "--" :: after) =
        (tree.report config start before).extend
          (⟨"--", before.length, command, .doubleDash⟩ :: tail) := by
  let cursor := tree.cursorAfter config start before
  have hliteral : cursor.literal = false := Cursor.literal_foldl_step _ rfl hbefore
  have hlength : cursor.readings.length = before.length := length_readings_report before
  have hstep := @Cursor.step_doubleDash β (Setting.of tree config) cursor hliteral
  obtain ⟨tail, htail, hall⟩ := Cursor.foldl_step_of_literal (Setting.of tree config) after
    (show (cursor.step (Setting.of tree config) "--").literal = true by rw [hstep])
  refine ⟨cursor.command, tail, hall, ?_⟩
  rw [hstep, Cursor.record, hlength, List.append_assoc] at htail
  unfold report Report.extend cursorAfter
  rw [List.foldl_append, List.foldl_cons]
  change Report.mk _ _ (after.foldl _ (cursor.step _ "--")).readings = _
  rw [hstep, Cursor.record, hlength, htail]
  rfl

/-- Nothing after `--` changes the commands, the options or the actions of a command line. -/
theorem agree_report_doubleDash (hbefore : "--" ∉ before) (after : List String) :
    (tree.report config start (before ++ "--" :: after)).Agree
      (tree.report config start before) := by
  obtain ⟨command, tail, htail, hreport⟩ :=
    @exists_report_doubleDash β tree config start before hbefore after
  rw [hreport]
  refine Report.agree_extend ?_
  rw [List.forall_mem_cons]
  exact ⟨Reading.inert_of_doubleDash rfl, fun reading hmem => (htail reading hmem).inert⟩

/-- Everything after the first `--` is literal. -/
theorem literalAfter_report (hbefore : "--" ∉ before) (after : List String) :
    (tree.report config start (before ++ "--" :: after)).LiteralAfter before.length := by
  obtain ⟨command, tail, htail, hreport⟩ :=
    @exists_report_doubleDash β tree config start before hbefore after
  rw [hreport]
  exact Report.literalAfter_extend (length_readings_report before) (kind_ne_doubleDash hbefore) htail

/-- From a command of any tree, with delimiters of one byte, `--` isolates what stands before it:
command lines that differ only after their first `--` agree in commands, options and actions, they
agree with the command line that ends before it, and after it every token is literal. -/
theorem exists_isolation (hstart : (tree.command? start).isSome)
    (hdelimiters : ∀ d ∈ config.inlineDelimiters, d.utf8Size = 1) (hbefore : "--" ∉ before)
    (first second : List String) :
    ∃ left right alone,
      tree.parse config start (before ++ ["--"] ++ first) = .ok left ∧
      tree.parse config start (before ++ ["--"] ++ second) = .ok right ∧
      tree.parse config start before = .ok alone ∧
      left.Agree right ∧ left.Agree alone ∧
      left.LiteralAfter before.length ∧ right.LiteralAfter before.length := by
  have hparse := @parse_eq_report β tree config start (isSome_symbol?_of_command? hstart) hdelimiters
  have hfirst := @agree_report_doubleDash β tree config start before hbefore first
  have hsecond := @agree_report_doubleDash β tree config start before hbefore second
  rw [List.append_assoc, List.append_assoc]
  exact ⟨_, _, _, hparse _, hparse _, hparse _, hfirst.trans hsecond.symm, hfirst,
    literalAfter_report hbefore first, literalAfter_report hbefore second⟩

/-- An option that is taking values, and aliases in the literal part. -/
theorem exists_isolation_sample :
    ∃ left right alone,
      sample.parse {} root (["build", "--tag", "a"] ++ ["--"] ++ ["7", "--", "--tag=b"]) =
        .ok left ∧
      sample.parse {} root (["build", "--tag", "a"] ++ ["--"] ++ ["build"]) = .ok right ∧
      sample.parse {} root ["build", "--tag", "a"] = .ok alone ∧
      left.Agree right ∧ left.Agree alone ∧ left.LiteralAfter 3 ∧ right.LiteralAfter 3 :=
  exists_isolation (by decide) Config.utf8Size_eq_one (by decide) _ _

end CommandTree

end CommandLine
