import CommandLine.Proofs.Demo.LineReport
import CommandLine.Proofs.Reading.Recognition

/-!
# Joining arguments

It makes no difference to the program how a line is distributed over its arguments. Behind the name
of a command that takes a line, texts that are neither `--` nor own options of the program are placed
one by one, and so is the text that they make together with spaces between them: a space is part of
no alias, so what is joined is no own option either. Behind `--` there is nothing to be looked for in
a text. The line is put together from all texts in order, and is the same in both ways.
-/

namespace CommandLine.Demo

open CommandTree

/-! ## Raw texts -/

/-- Whether a text is an alias, alone or with a value behind a delimiter. -/
def Spells (text name : String) : Prop :=
  text = name ∨ ∃ delimiter ∈ ({} : Config).inlineDelimiters,
    name.toList ++ [delimiter] <+: text.toList

instance (text name : String) : Decidable (Spells text name) :=
  decidable_of_iff (text = name ∨ ({} : Config).inlineDelimiters.any (fun delimiter =>
      (name.toList ++ [delimiter]).isPrefixOf text.toList) = true) <| by
    rw [Spells, List.any_eq_true]
    simp only [List.isPrefixOf_iff_prefix]

/-- Whether a text behind a subcommand is neither `--` nor an own option of the program. -/
def IsRaw (text : String) : Prop := text ≠ "--" ∧ ∀ name ∈ ownAliases, ¬ Spells text name

instance (text : String) : Decidable (IsRaw text) := inferInstanceAs (Decidable (_ ∧ _))

variable {command line : SymbolId} {task : SymbolId → SymbolId → Task} {text : String}
  {texts lead : List String}

/-- Raw texts are not recognized at a command that takes a line. -/
theorem sight_of_isRaw (htakes : TakesLine command line task) (h : IsRaw text) :
    (Setting.of program {}).sight command text = .plain := by
  have halias : ∀ {name option}, (program.scope command).resolve name = some option →
      name ∈ ownAliases := by
    intro name option hresolve
    have hmem : name ∈ (program.scope command).entries.map (·.1) := by
      obtain ⟨before, after, hentries, -⟩ := List.lookup_eq_some_iff.mp hresolve
      rw [hentries]
      simp
    rwa [htakes.aliases, List.mem_reverse] at hmem
  rw [Setting.sight_eq_plain_iff rfl Config.utf8Size_eq_one]
  intro hrecognizes
  cases hrecognizes with
  | doubleDash htoken => exact h.1 htoken
  | command hsub halias =>
    change _ ∈ program.commands command at hsub
    rw [htakes.commands] at hsub
    cases hsub
  | option hresolve => exact h.2 text (halias hresolve) (.inl rfl)
  | @inline _ _ value hcuts hresolve =>
    obtain ⟨delimiter, hdelimiter, htoken⟩ := hcuts.joined
    refine h.2 _ (halias hresolve) (.inr ⟨delimiter, hdelimiter, value.toList, ?_⟩)
    rw [htoken, List.append_assoc]
    rfl

/-- A text that begins with a raw text and a space is raw. -/
theorem isRaw_of_space {first : String} {rest : List Char} (h : IsRaw first)
    (htext : text.toList = first.toList ++ ' ' :: rest) : IsRaw text := by
  have hspace : ∀ name ∈ "--" :: ownAliases, ' ' ∉ name.toList := by decide
  have hmem : ' ' ∈ text.toList := by simp [htext]
  refine ⟨fun hdash => hspace "--" List.mem_cons_self (hdash ▸ hmem), fun name hname hspells => ?_⟩
  have hfree := hspace name (List.mem_cons_of_mem _ hname)
  rcases hspells with heq | ⟨delimiter, hdelimiter, value, hvalue⟩
  · exact hfree (heq ▸ hmem)
  · rw [htext, List.append_assoc, List.singleton_append] at hvalue
    have hne : delimiter ≠ ' ' := by
      rintro rfl
      exact absurd hdelimiter (by decide)
    rcases List.append_eq_append_iff.mp hvalue.symm with
      ⟨more, halong, hrest⟩ | ⟨more, hfirst, hrest⟩
    · -- The alias would reach up to the space or over it.
      cases more with
      | nil => exact hne (List.cons.inj hrest).1.symm
      | cons c more =>
        obtain ⟨rfl, -⟩ := List.cons.inj hrest
        exact hfree (by simp [halong])
    · cases more with
      | nil => exact hne (List.cons.inj hrest).1
      | cons c more =>
        obtain ⟨rfl, -⟩ := List.cons.inj hrest
        refine h.2 name hname (.inr ⟨delimiter, hdelimiter, more, ?_⟩)
        rw [hfirst, List.append_assoc]
        rfl

/-- Raw texts joined with spaces are a raw text. -/
theorem isRaw_intercalate (h : ∀ text ∈ texts, IsRaw text) : IsRaw (" ".intercalate texts) := by
  cases texts with
  | nil => exact (by decide : IsRaw "")
  | cons first rest =>
    cases rest with
    | nil =>
      rw [String.intercalate_singleton]
      exact h first List.mem_cons_self
    | cons next rest =>
      exact isRaw_of_space (h first List.mem_cons_self)
        (Line.toList_intercalate_cons_cons first next rest)

/-! ## Behind the name of a command -/

/-- A beginning of arguments that names a command, where no option may take values and whether `--`
was given. -/
structure Opens (lead : List String) (command : SymbolId) (literal : Bool) : Prop where
  current : (program.cursorAfter {} root lead).command = command
  taking : (program.cursorAfter {} root lead).taking = none
  mode : (program.cursorAfter {} root lead).literal = literal
  descents : (program.cursorAfter {} root lead).readings.filterMap Reading.descent? = [command]
  options : (program.cursorAfter {} root lead).readings.filterMap Reading.option? = []
  under : ∀ reading ∈ (program.cursorAfter {} root lead).readings,
    reading.positional? = none ∧ reading.meaning ≠ .unmatched
  placed : program.placed {} root command lead = []

/-- The names of the commands that take a line open such arguments, with and without `--`. -/
theorem exists_opens {name : String}
    (hname : (name, task) ∈ [("split", Task.split), ("s", Task.split), ("parse", Task.parse)]) :
    ∃ command line, TakesLine command line task ∧ Opens [name] command false ∧
      Opens [name, "--"] command true := by
  simp only [List.mem_cons, List.not_mem_nil, or_false, Prod.mk.injEq] at hname
  rcases hname with ⟨rfl, rfl⟩ | ⟨rfl, rfl⟩ | ⟨rfl, rfl⟩
  · refine ⟨9, 10, takesLine_split, ?_, ?_⟩ <;>
      exact ⟨rfl, rfl, rfl, rfl, rfl, by decide, by decide⟩
  · refine ⟨9, 10, takesLine_split, ?_, ?_⟩ <;>
      exact ⟨rfl, rfl, rfl, rfl, rfl, by decide, by decide⟩
  · refine ⟨11, 12, takesLine_parse, ?_, ?_⟩ <;>
      exact ⟨rfl, rfl, rfl, rfl, rfl, by decide, by decide⟩

namespace Opens

variable {literal : Bool}

/-- Texts that are placed behind such a beginning are named by nothing else in the report, and they
are all of them. -/
theorem namesOnly (h : Opens lead command literal) (hpasses : ∀ text ∈ texts, literal = true ∨
      (Setting.of program {}).sight command text = .plain) :
    NamesOnly (program.report {} root (lead ++ texts)) command ∧
      (program.placed {} root command (lead ++ texts)).map (·.text) = texts := by
  obtain ⟨hplaced, tail, htail, hall⟩ := @Cursor.foldl_step_of_passes Body (Setting.of program {})
    (program.cursorAfter {} root lead) texts h.taking (by rwa [h.mode, h.current])
  have hreadings : (program.report {} root (lead ++ texts)).readings =
      (program.cursorAfter {} root lead).readings ++ tail := by
    rw [readings_report_append, htail]
  have hinert : ∀ reading ∈ tail, reading.descent? = none ∧ reading.option? = none := by
    intro reading hmem
    rcases (hall reading hmem).2 with ⟨argument, hmeaning⟩ | hmeaning <;>
      simp [Reading.descent?, Reading.option?, hmeaning]
  refine ⟨⟨reachable_program.wellFormed.genuine _, rfl, rfl, ?_, ?_, ?_⟩, ?_⟩
  · rw [hreadings, List.filterMap_append, h.descents,
      List.filterMap_eq_nil_iff.mpr fun reading hmem => (hinert reading hmem).1, List.append_nil]
  · rw [hreadings, List.filterMap_append, h.options,
      List.filterMap_eq_nil_iff.mpr fun reading hmem => (hinert reading hmem).2, List.append_nil]
  · intro reading hmem hmeaning
    rw [hreadings, List.mem_append] at hmem
    rcases hmem with hlead | htail
    · obtain ⟨hnone, hmatched⟩ := h.under reading hlead
      rcases hmeaning with ⟨argument, hmeaning⟩ | hmeaning
      · simp [Reading.positional?, hmeaning] at hnone
      · exact absurd hmeaning hmatched
    · rw [(hall reading htail).1, h.current]
  · rw [CommandTree.placed, Cursor.placed_append]
    rw [h.current] at hplaced
    change (program.placed {} root command lead ++ _).map _ = _
    rw [h.placed]
    exact hplaced

end Opens

/-! ## The same line -/

/-- The arguments are parsed without errors, and the selected action is a task that gets a line. -/
def HandsOver (arguments : List String) (task : SymbolId → SymbolId → Task) (line : String) : Prop :=
  ∃ tree report argument json, commandTree id = .ok tree ∧
    tree.parse {} root arguments = .ok report ∧ report.errors = [] ∧
    report.action? = some { body := .task (task argument json) } ∧ gatherLine report argument = line

/-- Behind a beginning of the arguments, some texts and what they are joined to with spaces between
them are the same line to the program. -/
structure Joins (lead texts : List String) (task : SymbolId → SymbolId → Task) : Prop where
  /-- The program leaves the same behind: the exit code and what it writes. -/
  same : ∃ outcome, run (lead ++ texts) = .ok outcome ∧
    run (lead ++ [" ".intercalate texts]) = .ok outcome
  apart : HandsOver (lead ++ texts) task (" ".intercalate texts)
  joined : HandsOver (lead ++ [" ".intercalate texts]) task (" ".intercalate texts)

/-- A task does the same with the same line. -/
theorem perform_congr (htakes : TakesLine command line task) {first second : Report Body}
    (hline : gatherLine first line = gatherLine second line) (hjson : isOn first 1 = isOn second 1) :
    (task line 1).perform first = (task line 1).perform second := by
  rcases htakes.task with rfl | rfl
  · simp only [Task.perform, hline, hjson]
  · simp only [Task.perform, hline, hjson]

namespace Opens

variable {literal : Bool}

/-- Behind a beginning, texts that are placed make the line of the report. -/
theorem gatherLine_eq (h : Opens lead command literal) (htakes : TakesLine command line task)
    (hpasses : ∀ text ∈ texts, literal = true ∨
      (Setting.of program {}).sight command text = .plain) :
    gatherLine (program.report {} root (lead ++ texts)) line = " ".intercalate texts := by
  obtain ⟨hnames, hplaced⟩ := h.namesOnly hpasses
  rw [gatherLine, hnames.gatherParts_eq htakes (shares_program command _), hplaced]

/-- The task gets the line. -/
theorem handsOver (h : Opens lead command literal) (htakes : TakesLine command line task)
    (hpasses : ∀ text ∈ texts, literal = true ∨
      (Setting.of program {}).sight command text = .plain) :
    HandsOver (lead ++ texts) task (" ".intercalate texts) := by
  obtain ⟨hnames, -⟩ := h.namesOnly hpasses
  exact ⟨program, _, line, 1, commandTree_eq, parse_eq_report rfl Config.utf8Size_eq_one _,
    hnames.errors_eq_nil htakes (shares_program command _), hnames.action?_eq htakes,
    h.gatherLine_eq htakes hpasses⟩

/-- If texts and what they are joined to are placed, they are the same line. -/
theorem joins (h : Opens lead command literal) (htakes : TakesLine command line task)
    (hpasses : ∀ text ∈ texts, literal = true ∨
      (Setting.of program {}).sight command text = .plain)
    (hjoined : literal = true ∨
      (Setting.of program {}).sight command (" ".intercalate texts) = .plain) :
    Joins lead texts task := by
  have hone : ∀ text ∈ [" ".intercalate texts], literal = true ∨
      (Setting.of program {}).sight command text = .plain := by
    intro text hmem
    rwa [List.mem_singleton.mp hmem]
  have hjoin := h.handsOver htakes hone
  have hline := h.gatherLine_eq htakes hone
  rw [String.intercalate_singleton] at hjoin hline
  refine ⟨⟨_, run_eq _, ?_⟩, h.handsOver htakes hpasses, hjoin⟩
  obtain ⟨hfirst, -⟩ := h.namesOnly hpasses
  obtain ⟨hsecond, -⟩ := h.namesOnly hone
  have hsame := perform_congr htakes ((h.gatherLine_eq htakes hpasses).trans hline.symm)
    ((hfirst.isOn_eq htakes).trans (hsecond.isOn_eq htakes).symm)
  rw [run_eq, hfirst.ran_eq htakes (shares_program command _),
    hsecond.ran_eq htakes (shares_program command _), hsame]

end Opens

/-- Behind the name of a command that takes a line, raw texts and what they are joined to with spaces
between them make no difference; and behind the name and `--`, neither do any texts at all. -/
theorem joins_of_name {name : String}
    (hname : (name, task) ∈ [("split", Task.split), ("s", Task.split), ("parse", Task.parse)])
    (texts : List String) :
    ((∀ text ∈ texts, IsRaw text) → Joins [name] texts task) ∧ Joins [name, "--"] texts task := by
  obtain ⟨command, line, htakes, hopens, hdashes⟩ := exists_opens hname
  refine ⟨fun hraw => ?_, hdashes.joins htakes (fun _ _ => .inl rfl) (.inl rfl)⟩
  exact hopens.joins htakes (fun text hmem => .inr (sight_of_isRaw htakes (hraw text hmem)))
    (.inr (sight_of_isRaw htakes (isRaw_intercalate hraw)))

/-- A line for the sample program with an option of that program, and one with an empty text. -/
theorem joins_parse : Joins ["parse"] ["build", "--jobs", "", "4"] Task.parse ∧
    Joins ["parse", "--"] ["--json", "--", "build"] Task.parse :=
  ⟨(joins_of_name (by simp) _).1 (by decide), (joins_of_name (by simp) _).2⟩

end CommandLine.Demo
