import CommandLine.Proofs.Report.Consumption
import CommandLine.Proofs.Report.Regrouping

/-!
# Values behind an option and behind a delimiter

The values of an option can stand behind it, in tokens of their own, or in its token behind a
delimiter, joined with commas. Two ways of reading take them, one token by token and one all at once,
and each has its own conditions: values behind an option must not be recognized, and must be truth
values where only these are taken; values behind a delimiter must not hold a comma where several can
be given. Where the conditions of both are met, both give the option the same values.
-/

namespace CommandLine

variable {β : Type}

/-- An alias with values behind a delimiter, between commas. -/
def Inline.join (text : String) (delimiter : Char) (values : List String) : String :=
  text ++ String.singleton delimiter ++ ",".intercalate values

/-- Values that can be given to an option at a command in either way. -/
structure CommandTree.Inlinable (tree : CommandTree β) (delimiters : List Char)
    (command option : SymbolId) (node : OptionNode β) (argument : ArgumentNode) (text : String)
    (delimiter : Char) (values : List String) : Prop where
  option? : tree.option? option = some node
  slot? : tree.slot? option = some argument
  /-- The alias stands for the option, and for nothing that goes before options. -/
  resolve : (tree.scope command).resolve text = some option
  ne_doubleDash : text ≠ "--"
  subcommand : tree.subcommand? command text = none
  /-- The alias can be cut from what stands behind it. -/
  starts : text.toList.head?.any Inline.startsOption = true
  free : ∀ c ∈ text.toList, c ∉ delimiters
  delimits : delimiter ∈ delimiters
  /-- One occurrence takes that many values. -/
  ne_nil : values ≠ []
  most : values.length ≤ if node.multi then argument.arity.most else min argument.arity.most 1
  /-- Behind the option the values are taken. -/
  unrecognized : ∀ value ∈ values, ¬ tree.Recognizes delimiters command value
  truth : argument.type.isBool = true → argument.arity.least = 0 →
    ∀ value ∈ values, (readBool value).isSome
  /-- Behind the delimiter the values can be told apart. -/
  comma : node.multi = true → 1 < argument.arity.most → ∀ value ∈ values, ',' ∉ value.toList
  /-- The token with all values is no name of its own. -/
  joined_subcommand : tree.subcommand? command (Inline.join text delimiter values) = none
  joined_resolve : (tree.scope command).resolve (Inline.join text delimiter values) = none

namespace Inline

variable {delimiters : List Char} {text : String} {delimiter : Char} {values : List String}

/-- An alias with values is the alias, the delimiter and the values. -/
theorem toList_join (text : String) (delimiter : Char) (values : List String) :
    (join text delimiter values).toList =
      text.toList ++ delimiter :: (",".intercalate values).toList := by
  simp [join]

/-- An alias without delimiters is cut from its values. -/
theorem cuts_join (hdelimiter : delimiter ∈ delimiters) (hfree : ∀ c ∈ text.toList, c ∉ delimiters)
    (hstarts : text.toList.head?.any startsOption = true) :
    Cuts delimiters (join text delimiter values) text (",".intercalate values) :=
  ⟨⟨delimiter, hdelimiter, toList_join _ _ _⟩, hfree, hstarts⟩

/-- An alias with values is not `--`. -/
theorem join_ne_doubleDash (hdelimiter : delimiter ∈ delimiters)
    (hfree : ∀ c ∈ text.toList, c ∉ delimiters)
    (hstarts : text.toList.head?.any startsOption = true) :
    join text delimiter values ≠ "--" :=
  (cuts_join hdelimiter hfree hstarts).ne_doubleDash

end Inline

/-- Values without commas are told apart between commas. -/
theorem Sequence.splitOn_intercalate {values : List String} (hne : values ≠ [])
    (hcomma : ∀ value ∈ values, ',' ∉ value.toList) :
    ((",".intercalate values).toList.splitOn ',').map String.ofList = values := by
  rw [String.toList_intercalate, show ",".toList = [','] from rfl, List.splitOn_intercalate]
  · rw [List.map_map]
    exact List.map_id'' (fun value => String.ofList_toList) values
  · rw [List.forall_mem_map]
    exact hcomma
  · simpa using hne

/-! ## Values in tokens of their own -/

/-- Tokens that are not recognized and that an option accepts are all taken by it, if it has room. -/
theorem Cursor.exists_foldl_step_taken {setting : Setting β} {cursor : Cursor} {taking : Taking}
    {values : List String} (hliteral : cursor.literal = false)
    (htaking : cursor.taking = some taking)
    (hsight : ∀ value ∈ values, setting.sight cursor.command value = .plain)
    (htruth : taking.boolOnly = true → ∀ value ∈ values, (readBool value).isSome)
    (hroom : values.length ≤ taking.room) :
    ∃ tail, (values.foldl (Cursor.step setting) cursor).readings = cursor.readings ++ tail ∧
      tail.map (·.text) = values ∧
      ∀ reading ∈ tail, reading.meaning = .optionValue taking.option := by
  induction values generalizing cursor taking with
  | nil => exact ⟨[], (List.append_nil _).symm, rfl, nofun⟩
  | cons value values ih =>
    rw [List.forall_mem_cons] at hsight
    rw [List.length_cons] at hroom
    have haccepts : taking.accepts value = true := by
      rw [Taking.accepts_iff]
      refine ⟨by omega, fun ⟨hbool, hnone⟩ => ?_⟩
      have hsome := htruth hbool value List.mem_cons_self
      rw [Option.isNone_iff_eq_none.mp hnone] at hsome
      cases hsome
    have hstep := step_optionValue hliteral hsight.1 htaking haccepts
    obtain ⟨tail, htail, htexts, hmeanings⟩ := @ih
      { cursor.record value (.optionValue taking.option) with
        taking := some { taking with room := taking.room - 1 } }
      { taking with room := taking.room - 1 } hliteral rfl hsight.2
      (fun hbool other hother => htruth hbool other (List.mem_cons_of_mem _ hother))
      (Nat.le_sub_one_of_lt hroom)
    refine ⟨⟨value, cursor.readings.length, cursor.command, .optionValue taking.option⟩ :: tail,
      ?_, ?_, ?_⟩
    · rw [List.foldl_cons, hstep, htail, record, List.append_assoc]
      rfl
    · rw [List.map_cons, htexts]
    · rw [List.forall_mem_cons]
      exact ⟨rfl, hmeanings⟩

/-- Readings that give their texts to an option give them to no other. -/
theorem Reading.texts_flatMap_optionValues {readings : List Reading} {id : SymbolId}
    (hmeanings : ∀ reading ∈ readings, reading.meaning = .optionValue id) (option : SymbolId) :
    (readings.flatMap (optionValues option)).map (·.text) =
      if id = option then readings.map (·.text) else [] := by
  induction readings with
  | nil => simp
  | cons reading rest ih =>
    rw [List.forall_mem_cons] at hmeanings
    rw [List.flatMap_cons, List.map_append, ih hmeanings.2, optionValues, hmeanings.1]
    by_cases hoption : id = option <;> simp [hoption]

namespace CommandTree

variable {tree : CommandTree β} {config : Config} {start command option : SymbolId}
  {before values : List String} {node : OptionNode β} {argument : ArgumentNode} {text : String}
  {delimiter : Char}

namespace Inlinable

/-- The values behind the delimiter are told apart. -/
theorem inlineValues_eq (h : tree.Inlinable config.inlineDelimiters command option node argument text
      delimiter values) :
    (Setting.of tree config).inlineValues option (",".intercalate values) = values := by
  rw [CommandTree.inlineValues_eq h.option? h.slot?]
  split
  · rename_i hseveral
    exact Sequence.splitOn_intercalate h.ne_nil (h.comma hseveral.1 hseveral.2)
  · -- One occurrence takes one value at most, so there are no commas between values.
    rename_i hsingle
    have hlength : values.length ≤ 1 := by
      have hmost := h.most
      split at hmost
      · exact hmost.trans (Nat.le_of_not_lt fun hlt => hsingle ⟨‹_›, hlt⟩)
      · exact hmost.trans (Nat.min_le_right _ _)
    obtain ⟨value, rest, rfl⟩ := List.exists_cons_of_ne_nil h.ne_nil
    obtain rfl : rest = [] := by
      rw [← List.length_eq_zero_iff]
      rw [List.length_cons] at hlength
      omega
    rw [String.intercalate_singleton]

/-- Behind the option the values are taken, one token after another. -/
theorem exists_readings_apart (h : tree.Inlinable config.inlineDelimiters
      (tree.cursorAfter config start before).command option node argument text delimiter values)
    (hdelimiters : ∀ d ∈ config.inlineDelimiters, d.utf8Size = 1)
    (hliteral : (tree.cursorAfter config start before).literal = false) :
    ∃ tail, (tree.report config start (before ++ text :: values)).readings =
        (tree.report config start before).readings ++
          ⟨text, (tree.report config start before).readings.length,
            (tree.cursorAfter config start before).command, .option option []⟩ :: tail ∧
      tail.map (·.text) = values ∧ ∀ reading ∈ tail, reading.meaning = .optionValue option := by
  have hsight : (Setting.of tree config).sight (tree.cursorAfter config start before).command text =
      .option option none :=
    Setting.sight_of_resolve h.ne_doubleDash h.subcommand h.resolve
  have hplain : ∀ value ∈ values, (Setting.of tree config).sight
      (tree.cursorAfter config start before).command value = .plain :=
    fun value hvalue => (Setting.sight_eq_plain_iff rfl hdelimiters).mpr (h.unrecognized value hvalue)
  have htruth : ((Setting.of tree config).taking option).boolOnly = true →
      ∀ value ∈ values, (readBool value).isSome := by
    intro hbool
    simp only [Setting.taking, Setting.of, h.slot?, Option.any_some, Bool.and_eq_true,
      beq_iff_eq] at hbool
    exact h.truth hbool.1 hbool.2
  have hroom : values.length ≤ ((Setting.of tree config).taking option).room := by
    change values.length ≤ (Setting.of tree config).capacity option
    rw [capacity_eq h.option? h.slot?]
    exact h.most
  obtain ⟨tail, htail, htexts, hmeanings⟩ := @Cursor.exists_foldl_step_taken β
    (Setting.of tree config)
    { (tree.cursorAfter config start before).record text (.option option []) with
      taking := some ((Setting.of tree config).taking option) }
    _ values hliteral rfl hplain htruth hroom
  refine ⟨tail, ?_, htexts, hmeanings⟩
  rw [readings_report_append, List.foldl_cons, Cursor.step_option hliteral hsight, htail,
    Cursor.record, List.append_assoc]
  rfl

/-- Behind the delimiter the values are taken at once. -/
theorem readings_joined (h : tree.Inlinable config.inlineDelimiters
      (tree.cursorAfter config start before).command option node argument text delimiter values)
    (hdelimiters : ∀ d ∈ config.inlineDelimiters, d.utf8Size = 1)
    (hliteral : (tree.cursorAfter config start before).literal = false) :
    (tree.report config start (before ++ [Inline.join text delimiter values])).readings =
      (tree.report config start before).readings ++
        [⟨Inline.join text delimiter values, (tree.report config start before).readings.length,
          (tree.cursorAfter config start before).command, .option option values⟩] := by
  have hsplit := Inline.split_of_cuts hdelimiters (@Inline.cuts_join _ _ _ values h.delimits h.free
    h.starts)
  have hsight : (Setting.of tree config).sight (tree.cursorAfter config start before).command
      (Inline.join text delimiter values) = .option option (some (",".intercalate values)) :=
    Setting.sight_of_split (Inline.join_ne_doubleDash h.delimits h.free h.starts)
      h.joined_subcommand h.joined_resolve hsplit h.resolve
  rw [readings_report_append, List.foldl_cons, List.foldl_nil, Cursor.step_inline hliteral hsight,
    h.inlineValues_eq]
  rfl

/-- Either way the same values are given to the same option. -/
theorem regroups (h : tree.Inlinable config.inlineDelimiters
      (tree.cursorAfter config start before).command option node argument text delimiter values)
    (htree : tree.WellFormed)
    (hdelimiters : ∀ d ∈ config.inlineDelimiters, d.utf8Size = 1)
    (hliteral : (tree.cursorAfter config start before).literal = false) :
    (tree.report config start (before ++ text :: values)).Regroups
        (tree.report config start (before ++ [Inline.join text delimiter values])) ∧
      (tree.report config start (before ++ text :: values)).optionIds =
        (tree.report config start (before ++ [Inline.join text delimiter values])).optionIds := by
  obtain ⟨tail, hapart, htexts, hmeanings⟩ := h.exists_readings_apart hdelimiters hliteral
  have hjoined := h.readings_joined hdelimiters hliteral
  have hnamed : tail.filterMap Reading.option? = [] := by
    rw [List.filterMap_eq_nil_iff]
    intro reading hmem
    rw [Reading.option?, hmeanings reading hmem]
  refine ⟨⟨htree.genuine _, htree.genuine _, rfl, rfl, ?_, fun id => ?_, fun id => ?_⟩, ?_⟩
  · have hserves : tail.filter (!·.servesOption) = [] := by
      rw [List.filter_eq_nil_iff]
      intro reading hmem
      simp [Reading.servesOption, hmeanings reading hmem]
    rw [hapart, hjoined, List.filter_append, List.filter_append,
      List.filter_cons_of_neg (by simp [Reading.servesOption]),
      List.filter_cons_of_neg (by simp [Reading.servesOption]), hserves]
    rfl
  · have hnone : tail.filter (·.option? = some id) = [] := by
      rw [List.filter_eq_nil_iff]
      intro reading hmem
      simp [Reading.option?, hmeanings reading hmem]
    rw [Report.occurrences, Report.occurrences, hapart, hjoined, List.filter_append,
      List.filter_append, List.filter_cons, List.filter_cons, hnone, List.filter_nil]
    by_cases hoption : option = id <;> simp [Reading.option?, hoption]
  · rw [hapart, hjoined, List.flatMap_append, List.flatMap_append, List.flatMap_cons,
      List.flatMap_singleton, List.map_append, List.map_append, List.map_append,
      Reading.texts_optionValues rfl, Reading.texts_flatMap_optionValues hmeanings,
      Reading.texts_optionValues rfl, htexts, ite_self, List.nil_append]
  · rw [Report.optionIds, Report.optionIds, hapart, hjoined, List.filterMap_append,
      List.filterMap_append]
    simp [Reading.option?, hnamed]

end Inlinable

/-- The values of an option can stand behind it or behind a delimiter. After any tokens without `--`
that are parsed from a command of a reachable tree, with delimiters of one byte, an option with values
that can be given in either way is parsed in both, and the reports agree in all but places: in the
path, in the values of all symbols, in what is selected, and in what the errors say. -/
theorem exists_coincides_join {opening : Report β} (h : Reachable tree)
    (hstart : (tree.command? start).isSome)
    (hdelimiters : ∀ d ∈ config.inlineDelimiters, d.utf8Size = 1) (hdash : "--" ∉ before)
    (hopening : tree.parse config start before = .ok opening)
    (hinlinable : tree.Inlinable config.inlineDelimiters opening.terminal option node argument text
      delimiter values) :
    ∃ apart joined, tree.parse config start (before ++ text :: values) = .ok apart ∧
      tree.parse config start (before ++ [Inline.join text delimiter values]) = .ok joined ∧
      apart.Coincides joined := by
  have hsymbol := isSome_symbol?_of_command? hstart
  rw [parse_eq_report hsymbol hdelimiters] at hopening
  obtain rfl := Except.ok.inj hopening
  have hterminal : (tree.report config start before).terminal =
      (tree.cursorAfter config start before).command :=
    (consistent_cursorAfter before).command.symm
  rw [hterminal] at hinlinable
  have hliteral := Cursor.literal_foldl_step (Setting.of tree config)
    (show (Cursor.start (Setting.of tree config) start).literal = false from rfl) hdash
  obtain ⟨hregroups, hids⟩ := hinlinable.regroups h.wellFormed hdelimiters hliteral
  exact ⟨_, _, parse_eq_report hsymbol hdelimiters _, parse_eq_report hsymbol hdelimiters _,
    hregroups.coincides hids⟩

/-- Three values, one with a delimiter in it, one that looks like no option, and an empty one. -/
theorem exists_coincides_join_sample : ∃ apart joined,
    sample.parse {} root (["-t=x", "build"] ++ "--tag" :: ["a:b", "-c=d", ""]) = .ok apart ∧
      sample.parse {} root (["-t=x", "build"] ++ [Inline.join "--tag" ':' ["a:b", "-c=d", ""]]) =
        .ok joined ∧
      apart.Coincides joined := by
  have hplain : ∀ value ∈ ["a:b", "-c=d", ""],
      (Setting.of sample {}).sight (sample.report {} root ["-t=x", "build"]).terminal value =
        .plain := by
    decide +kernel
  have hinlinable : sample.Inlinable ({} : Config).inlineDelimiters
      (sample.report {} root ["-t=x", "build"]).terminal 1
      { argument := 2, required := true, inherited := true }
      { type := .string, arity := ⟨1, 3⟩ } "--tag" ':' ["a:b", "-c=d", ""] := {
    option? := rfl
    slot? := rfl
    resolve := by decide +kernel
    ne_doubleDash := by decide
    subcommand := by decide +kernel
    starts := by decide
    free := by simp
    delimits := by decide
    ne_nil := by decide
    most := by decide
    unrecognized := fun value hvalue =>
      (Setting.sight_eq_plain_iff rfl Config.utf8Size_eq_one).mp (hplain value hvalue)
    truth := fun hbool => by cases hbool
    comma := by decide
    joined_subcommand := by decide +kernel
    joined_resolve := by decide +kernel }
  exact exists_coincides_join reachable_sample (by decide) Config.utf8Size_eq_one (by decide)
    (parse_eq_report (by decide) Config.utf8Size_eq_one _) hinlinable

end CommandTree

end CommandLine
