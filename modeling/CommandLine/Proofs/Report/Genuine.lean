import CommandLine.Proofs.Reading.Path

/-!
# Reports of command lines

With delimiters of one byte every command line is read to its end, from any symbol of a tree, and
the outcome is a genuine report: its scopes are those of its tree, and its readings form a trace.
What is proved of genuine reports holds of every report that reading can end with.
-/

namespace CommandLine

variable {β : Type}

/-- A report whose readings form a trace in the scopes of a well-formed tree. -/
structure Report.Genuine (report : Report β) : Prop where
  wellFormed : report.tree.WellFormed
  scope : report.setting.scope = report.tree.scope
  trace : Trace report.setting report.start report.readings

/-- The delimiters of the default configuration take one byte each. -/
theorem Config.utf8Size_eq_one : ∀ d ∈ ({} : Config).inlineDelimiters, d.utf8Size = 1 := by
  intro d hd
  rcases List.mem_cons.mp hd with rfl | hd
  · rfl
  · rw [List.mem_singleton.mp hd]
    rfl

namespace CommandTree

variable {tree : CommandTree β} {config : Config} {start : SymbolId}

/-- Where the reading of a command line ends. -/
def cursorAfter (tree : CommandTree β) (config : Config) (start : SymbolId) (tokens : List String) :
    Cursor :=
  tokens.foldl (Cursor.step (Setting.of tree config)) (Cursor.start (Setting.of tree config) start)

/-- The report of a command line that is read to its end. -/
def report (tree : CommandTree β) (config : Config) (start : SymbolId) (tokens : List String) :
    Report β where
  setting := Setting.of tree config
  start := start
  readings := (tree.cursorAfter config start tokens).readings

/-- Reading a command line to its end, from a symbol of the tree, gives the report. -/
theorem parse_of_read {tokens : List String} {cursor : Cursor} (hstart : (tree.symbol? start).isSome)
    (hread : (Cursor.start (Setting.of tree config) start).read (Setting.of tree config) tokens =
      .ok cursor) :
    tree.parse config start tokens = .ok (tree.report config start tokens) := by
  obtain ⟨symbol, hsymbol⟩ := Option.isSome_iff_exists.mp hstart
  unfold parse Setting.parse
  rw [show (Setting.of tree config).tree.symbol? start = some symbol from hsymbol]
  simp only [hread]
  rw [Cursor.eq_foldl_of_read hread]
  rfl

/-- With delimiters of one byte parsing from a symbol of the tree gives the report. -/
theorem parse_eq_report (hstart : (tree.symbol? start).isSome)
    (hdelimiters : ∀ d ∈ config.inlineDelimiters, d.utf8Size = 1) (tokens : List String) :
    tree.parse config start tokens = .ok (tree.report config start tokens) :=
  parse_of_read hstart (Cursor.read_eq_ok hdelimiters _ tokens)

/-- Whatever is parsed, is parsed to its report. -/
theorem eq_report_of_parse {tokens : List String} {report : Report β}
    (h : tree.parse config start tokens = .ok report) : report = tree.report config start tokens := by
  unfold parse Setting.parse at h
  split at h
  · cases h
  · split at h
    · rename_i cursor hread
      rw [← Except.ok.inj h, Cursor.eq_foldl_of_read hread]
      rfl
    · cases h

/-- The readings of a report are those of its tokens, in order. -/
theorem texts_report (tokens : List String) :
    (tree.report config start tokens).readings.map (·.text) = tokens :=
  Cursor.texts_foldl_step _ _ tokens

/-- What follows the beginning of a command line is read from where reading the beginning ends. -/
theorem readings_report_append (before after : List String) :
    (tree.report config start (before ++ after)).readings =
      (after.foldl (Cursor.step (Setting.of tree config))
        (tree.cursorAfter config start before)).readings := by
  rw [report, cursorAfter, List.foldl_append]
  rfl

/-- The cursor after any tokens is consistent. -/
theorem consistent_cursorAfter (tokens : List String) :
    (tree.cursorAfter config start tokens).Consistent (Setting.of tree config) start :=
  (Cursor.consistent_start _ _).foldl_step tokens

/-- The report of any tokens against a well-formed tree is genuine. -/
theorem WellFormed.genuine (h : tree.WellFormed) (tokens : List String) :
    (tree.report config start tokens).Genuine :=
  ⟨h, rfl, (consistent_cursorAfter tokens).trace⟩

end CommandTree

end CommandLine
