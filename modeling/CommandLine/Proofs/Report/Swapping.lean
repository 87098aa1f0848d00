import CommandLine.Proofs.Report.Accounting
import CommandLine.Proofs.Report.Regrouping
import CommandLine.Proofs.Report.Respelling

/-!
# Options that change places

An option with its values behind a delimiter is complete in one token. Two such tokens of different
options that stand next to each other can change places: neither of them is read differently, since
an option does not change the command and needs nothing that stands before it, and what follows is
read from the same state. The reports agree in all but the places and the order of the two options.

If another option was taking values in front of them, it stops at either.
-/

namespace CommandLine

variable {β : Type}

/-- The reading of a token that holds an option and its values. -/
def Setting.inlineReading (setting : Setting β) (command : SymbolId) (token : String)
    (position : ℕ) (id : SymbolId) (value : String) : Reading :=
  ⟨token, position, command, .option id (setting.inlineValues id value)⟩

namespace Cursor

variable {cursor : Cursor} {setting : Setting β} {token other : String} {id second : SymbolId}
  {value text : String}

/-- Two options with values behind delimiters are read one after the other. -/
theorem step_step_inline (hliteral : cursor.literal = false)
    (htoken : setting.sight cursor.command token = .option id (some value))
    (hother : setting.sight cursor.command other = .option second (some text)) :
    (cursor.step setting token).step setting other =
      { cursor with
        taking := none
        readings := cursor.readings ++
          [setting.inlineReading cursor.command token cursor.readings.length id value,
            setting.inlineReading cursor.command other (cursor.readings.length + 1) second
              text] } := by
  have hnext := @step_inline β setting
    { cursor.record token (.option id (setting.inlineValues id value)) with taking := none }
    other second text hliteral hother
  rw [step_inline hliteral htoken, hnext]
  simp [record, Setting.inlineReading]

end Cursor

namespace Report

/-- The token at a position is an occurrence of an option, with values of it behind a delimiter. -/
def InlineAt (report : Report β) (position : ℕ) (option : SymbolId) : Prop :=
  ∃ found ∈ report.options, found.option = option ∧
    (∃ token ∈ found.tokens, token.position = position) ∧
      ∃ value ∈ found.binding.values, value.position = position

instance (report : Report β) (position : ℕ) (option : SymbolId) :
    Decidable (report.InlineAt position option) :=
  inferInstanceAs (Decidable (∃ found ∈ report.options, found.option = option ∧
    (∃ token ∈ found.tokens, token.position = position) ∧
      ∃ value ∈ found.binding.values, value.position = position))

variable {report : Report β} {position : ℕ} {option : SymbolId}

/-- Where an option has values behind a delimiter, a reading names it and gives it values. -/
theorem Genuine.exists_reading_of_inlineAt (h : report.Genuine)
    (hinline : report.InlineAt position option) :
    ∃ reading inline, report.readings[position]? = some reading ∧
      reading.meaning = .option option inline ∧ inline ≠ [] := by
  obtain ⟨found, hfound, rfl, ⟨token, htoken, rfl⟩, value, hvalue, hplace⟩ := hinline
  obtain ⟨option, hoption, rfl⟩ := List.mem_map.mp hfound
  obtain ⟨reading, hreading, rfl⟩ := List.mem_map.mp htoken
  obtain ⟨hmem, hnamed⟩ := List.mem_filter.mp hreading
  obtain ⟨giver, hgiver, hgiven⟩ := List.mem_flatMap.mp hvalue
  -- The value stands at the position of the reading that gives it, so the same reading does.
  have hposition : value.position = giver.position := by
    have hholder := hgiven
    rw [h.optionValues_eq hoption hgiver] at hholder
    split at hholder
    · exact Reading.position_of_mem_given hholder
    · cases hholder
  obtain rfl : giver = reading :=
    h.trace.eq_of_position_eq hgiver hmem (hposition.symm.trans hplace)
  obtain ⟨inline, hmeaning⟩ := Reading.exists_meaning_of_option? (of_decide_eq_true hnamed)
  refine ⟨giver, inline, h.trace.getElem?_position hmem, hmeaning, ?_⟩
  rintro rfl
  simp [Reading.optionValues, hmeaning] at hgiven

end Report

namespace CommandTree

variable {tree : CommandTree β} {config : Config} {start option other : SymbolId}
  {before after texts : List String} {first second text : String} {report : Report β}

/-- Where an option has values behind a delimiter, the token looks like the option with a value. -/
theorem WellFormed.exists_sight_of_inlineAt (h : tree.WellFormed)
    (hinline : (tree.report config start (before ++ text :: after)).InlineAt before.length option) :
    (tree.cursorAfter config start before).literal = false ∧
      ∃ value, (Setting.of tree config).sight (tree.cursorAfter config start before).command text =
        .option option (some value) := by
  obtain ⟨reading, inline, hreading, hmeaning, hne⟩ :=
    (h.genuine _).exists_reading_of_inlineAt hinline
  obtain ⟨lead, rest, next, htexts, hlength, -, hstep⟩ := exists_step_of_getElem? hreading
  obtain ⟨rfl, hrest⟩ := List.append_inj htexts hlength.symm
  obtain ⟨rfl, -⟩ := List.cons.inj hrest
  rw [hmeaning] at hstep
  cases hstep with
  | option => exact absurd rfl hne
  | inline hliteral hsight => exact ⟨hliteral, _, hsight⟩

/-- If two tokens both look like options with values where the first of them stands, their options
are read one after the other, whichever comes first, and what follows is read alike. -/
theorem exists_readings_swap {value content : String}
    (hliteral : (tree.cursorAfter config start before).literal = false)
    (hfirst : (Setting.of tree config).sight (tree.cursorAfter config start before).command first =
      .option option (some value))
    (hsecond : (Setting.of tree config).sight (tree.cursorAfter config start before).command second =
      .option other (some content)) (after : List String) :
    let cursor := tree.cursorAfter config start before
    let read := (Setting.of tree config).inlineReading cursor.command
    let place := cursor.readings.length
    ∃ tail, (tree.report config start (before ++ first :: second :: after)).readings =
        cursor.readings ++ [read first place option value, read second (place + 1) other content] ++
          tail ∧
      (tree.report config start (before ++ second :: first :: after)).readings =
        cursor.readings ++ [read second place other content, read first (place + 1) option value] ++
          tail := by
  intro cursor read place
  obtain ⟨tail, htail⟩ := Cursor.exists_tail_foldl_step (Setting.of tree config)
    { cursor with taking := none
                  readings := cursor.readings ++
                    [read first place option value, read second (place + 1) other content] } after
  refine ⟨tail, ?_, ?_⟩
  · rw [readings_report_append, List.foldl_cons, List.foldl_cons,
      Cursor.step_step_inline hliteral hfirst hsecond]
    exact htail _ rfl
  · rw [readings_report_append, List.foldl_cons, List.foldl_cons,
      Cursor.step_step_inline hliteral hsecond hfirst]
    exact htail _ (by rw [List.length_append, List.length_append]; rfl)

/-- Adjacent options with their values behind delimiters can change places. -/
theorem WellFormed.regroups_swap (h : tree.WellFormed) (hne : option ≠ other)
    (hfirst : (tree.report config start (before ++ first :: second :: after)).InlineAt
      before.length option)
    (hsecond : (tree.report config start (before ++ first :: second :: after)).InlineAt
      (before.length + 1) other) :
    (tree.report config start (before ++ first :: second :: after)).Regroups
      (tree.report config start (before ++ second :: first :: after)) := by
  obtain ⟨hliteral, value, hsight⟩ := h.exists_sight_of_inlineAt hfirst
  have hnext : ∃ content, (Setting.of tree config).sight
      (tree.cursorAfter config start before).command second = .option other (some content) := by
    have hlength : (before ++ [first]).length = before.length + 1 := by simp
    rw [← hlength, ← List.singleton_append, ← List.append_assoc] at hsecond
    obtain ⟨-, content, hcontent⟩ := h.exists_sight_of_inlineAt hsecond
    refine ⟨content, ?_⟩
    -- The first option does not change the command.
    rw [cursorAfter, List.foldl_append] at hcontent
    change (Setting.of tree config).sight
      ((tree.cursorAfter config start before).step _ first).command second = _ at hcontent
    rw [Cursor.step_inline hliteral hsight] at hcontent
    exact hcontent
  obtain ⟨content, hcontent⟩ := hnext
  obtain ⟨tail, hreadings, hswapped⟩ := exists_readings_swap hliteral hsight hcontent after
  refine ⟨h.genuine _, h.genuine _, rfl, rfl, ?_, fun id => ?_, fun id => ?_⟩
  · rw [hreadings, hswapped]
    simp [Reading.servesOption, Setting.inlineReading]
  · rw [Report.occurrences, Report.occurrences, hreadings, hswapped]
    by_cases hoption : option = id <;> by_cases hother : other = id <;>
      simp [Reading.option?, Setting.inlineReading, hoption, hother]
  · rw [hreadings, hswapped]
    have htexts : ∀ token place id value option,
        (((Setting.of tree config).inlineReading (tree.cursorAfter config start before).command token
          place id value).optionValues option).map (·.text) =
          if id = option then (Setting.of tree config).inlineValues id value else [] :=
      fun _ _ _ _ option => Reading.texts_optionValues rfl option
    simp only [List.flatMap_append, List.flatMap_cons, List.flatMap_nil, List.map_append, htexts]
    by_cases hoption : option = id
    · have hother : other ≠ id := fun hother => hne (hoption.trans hother.symm)
      simp [hother]
    · simp [hoption]

/-- In a command line that is parsed against a reachable tree, with delimiters of one byte, two
tokens that stand next to each other and hold different options with their values can change places.
The command line is then parsed too, and both reports agree in all but the places and the order of
options: in the path, in the values of all symbols, and in what the errors say. -/
theorem exists_concurs_swap (h : Reachable tree) (hstart : (tree.symbol? start).isSome)
    (hdelimiters : ∀ d ∈ config.inlineDelimiters, d.utf8Size = 1)
    (hparse : tree.parse config start (before ++ first :: second :: after) = .ok report)
    (hfirst : report.InlineAt before.length option)
    (hsecond : report.InlineAt (before.length + 1) other) (hne : option ≠ other) :
    ∃ swapped, tree.parse config start (before ++ second :: first :: after) = .ok swapped ∧
      report.Concurs swapped := by
  rw [parse_eq_report hstart hdelimiters] at hparse
  obtain rfl := Except.ok.inj hparse
  exact ⟨_, parse_eq_report hstart hdelimiters _,
    (h.wellFormed.regroups_swap hne hfirst hsecond).concurs⟩

/-- A program with two options for up to three values each: `app --tag <name>... --mark <name>...`. -/
def marked : CommandTree Unit :=
  (new { name := "app" }).editAll
    [.addOption root
        { aliases := ["--tag"], argument := some { name := "name", arity := some ⟨1, 3⟩ } } false,
      .addOption root
        { aliases := ["--mark"], argument := some { name := "name", arity := some ⟨1, 3⟩ } } false]

/-- One of the options is taking values in front of the two tokens, and the other one has too many. -/
theorem exists_concurs_swap_marked : ∃ swapped,
    marked.parse {} root (["--tag", "a"] ++ "--tag=b" :: "--mark=x,y" :: ["--mark=y,z"]) =
      .ok swapped ∧
    (marked.report {} root
      (["--tag", "a"] ++ "--mark=x,y" :: "--tag=b" :: ["--mark=y,z"])).Concurs swapped :=
  exists_concurs_swap ((Reachable.new _).editAll _) (by decide) Config.utf8Size_eq_one
    (parse_eq_report (by decide) Config.utf8Size_eq_one _)
    (show Report.InlineAt _ 2 3 by decide +kernel) (show Report.InlineAt _ 3 1 by decide +kernel)
    (by decide)

end CommandTree

end CommandLine
