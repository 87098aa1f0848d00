import CommandLine.Proofs.Ledger.Entry
import CommandLine.Proofs.Reading.Recognition
import CommandLine.Proofs.Report.Descent
import CommandLine.Proofs.Report.Selection

/-!
# Which action is selected

Options are matched in the order of their first occurrences. The last one that has an action is
selected, whatever was matched behind it, and the actions of those before it run ahead unless they are
exclusive. So a further occurrence of an option that was matched before does not matter to what is
selected, provided that it is complete in its token and does not take the place of a value: then it
moves what follows by one position, and changes neither the order of options nor the command.
-/

namespace CommandLine

variable {β : Type}

/-! ## The order of first occurrences -/

namespace Sequence

variable {A K : Type}

/-- In a list without repeats the keys of a list stand in the order of their first occurrences. -/
theorem pairwise_eraseDups [DecidableEq K] {R : A → A → Prop} (key : A → Option K) {values : List A}
    (h : values.Pairwise R) :
    (values.filterMap key).eraseDups.Pairwise fun first later =>
      ∃ value ∈ values, key value = some first ∧
        ∀ other ∈ values, key other = some later → R value other := by
  induction values using List.reverseRecOn with
  | nil => exact .nil
  | append_singleton values last ih =>
    obtain ⟨hvalues, -, hcross⟩ := List.pairwise_append.mp h
    have hlast : ∀ value ∈ values, R value last :=
      fun value hmem => hcross value hmem last List.mem_cons_self
    have hkept : (values.filterMap key).eraseDups.Pairwise fun first later =>
        ∃ value ∈ values ++ [last], key value = some first ∧
          ∀ other ∈ values ++ [last], key other = some later → R value other := by
      refine (ih hvalues).imp fun {first later} hfirst => ?_
      obtain ⟨value, hmem, hkey, hall⟩ := hfirst
      refine ⟨value, List.mem_append_left _ hmem, hkey, ?_⟩
      rw [List.forall_mem_append, List.forall_mem_singleton]
      exact ⟨hall, fun _ => hlast value hmem⟩
    rw [List.filterMap_append]
    cases hkey : key last with
    | none => rwa [List.filterMap_cons_none hkey, List.filterMap_nil, List.append_nil]
    | some new =>
      rw [List.filterMap_cons_some hkey, List.filterMap_nil]
      by_cases hmem : new ∈ values.filterMap key
      · rwa [eraseDups_concat_of_mem hmem]
      · rw [eraseDups_concat_of_notMem hmem, List.pairwise_append]
        refine ⟨hkept, List.pairwise_singleton _ _, fun first hfirst later hlater => ?_⟩
        obtain rfl := List.mem_singleton.mp hlater
        obtain ⟨value, hvalue, hvaluekey⟩ := List.mem_filterMap.mp (List.mem_eraseDups.mp hfirst)
        refine ⟨value, List.mem_append_left _ hvalue, hvaluekey, ?_⟩
        rw [List.forall_mem_append, List.forall_mem_singleton]
        refine ⟨fun other hother hotherkey => ?_, fun _ => hlast value hvalue⟩
        exact absurd (List.mem_filterMap.mpr ⟨other, hother, hotherkey⟩) hmem

/-- A list with members of some kind can be split at the last of them. -/
theorem exists_last {p : A → Bool} {values : List A} (h : ∃ value ∈ values, p value = true) :
    ∃ before value after, values = before ++ value :: after ∧ p value = true ∧
      ∀ later ∈ after, p later = false := by
  induction values with
  | nil => simp at h
  | cons first rest ih =>
    by_cases hrest : ∃ value ∈ rest, p value = true
    · obtain ⟨before, value, after, rfl, hlast⟩ := ih hrest
      exact ⟨first :: before, value, after, rfl, hlast⟩
    · rw [List.exists_mem_cons_iff] at h
      exact ⟨[], first, rest, rfl, h.resolve_right hrest, by simpa using hrest⟩

end Sequence

namespace Report

variable {report : Report β}

/-- The matched options stand in the order of their first occurrences. -/
theorem Genuine.pairwise_options (h : report.Genuine) :
    report.options.Pairwise fun found later =>
      ∃ first ∈ found.tokens, ∀ token ∈ later.tokens, first.position < token.position := by
  rw [options, List.pairwise_map]
  refine (Sequence.pairwise_eraseDups Reading.option? h.trace.pairwise_positions).imp ?_
  rintro option other ⟨reading, hmem, hoption, hall⟩
  refine ⟨reading.token, List.mem_map_of_mem ?_, ?_⟩
  · exact List.mem_filter.mpr ⟨hmem, decide_eq_true hoption⟩
  · rw [optionMatch, occurrences, List.forall_mem_map]
    intro later hlater
    obtain ⟨hother, hkey⟩ := List.mem_filter.mp hlater
    exact hall later hother (of_decide_eq_true hkey)

/-! ## What is selected -/

/-- Whether a matched option has an action. -/
def acts (report : Report β) (found : OptionMatch) : Bool :=
  (report.tree.action? found.option).isSome

/-- Whether the action of a matched option may run ahead of another one. -/
def yields (report : Report β) (found : OptionMatch) : Bool :=
  (report.tree.action? found.option).any (!·.exclusive)

/-- What is selected of the matched options in their order, and which actions that comes to. -/
structure Selects (report : Report β) : Prop where
  ordered : report.options.Pairwise fun found later =>
    ∃ first ∈ found.tokens, ∀ token ∈ later.tokens, first.position < token.position
  /-- The last option that has an action is selected, and those before it that are not exclusive run
  ahead. -/
  last : (∃ found ∈ report.options, report.acts found = true) →
    ∃ before found after, report.options = before ++ found :: after ∧ report.acts found = true ∧
      (∀ later ∈ after, report.acts later = false) ∧
      report.selection.owner = some found.option ∧
      report.selection.ahead = (before.filter report.yields).map (·.option)
  /-- Without such an option, it is the deepest command if it has an action. -/
  fallback : (∀ found ∈ report.options, report.acts found = false) →
    report.selection.ahead = [] ∧
      report.selection.owner =
        if (report.tree.command? report.terminal).any (·.action.isSome) then some report.terminal
        else none
  nodup : (report.selection.ahead ++ report.selection.owner.toList).Nodup
  /-- No action is dropped. -/
  action? : report.selection.owner.map report.tree.action? = report.action?.map some
  actionsAhead : report.selection.ahead.map report.tree.action? = report.actionsAhead.map some

/-- The acting options are the matched options that have an action. -/
theorem actingOptions_eq (report : Report β) :
    report.actingOptions = (report.options.filter report.acts).map (·.option) := by
  rw [actingOptions, ← map_option_options, List.filter_map]
  rfl

/-- What may run ahead has an action. -/
theorem acts_of_yields {found : OptionMatch} (h : report.yields found = true) :
    report.acts found = true := by
  rw [yields] at h
  rw [acts]
  cases haction : report.tree.action? found.option with
  | none => simp [haction] at h
  | some action => rfl

/-- The last acting option is selected, and those before it run ahead if they may. -/
theorem selection_of_last {before after : List OptionMatch} {found : OptionMatch}
    (hsplit : report.options = before ++ found :: after) (hacts : report.acts found = true)
    (hafter : ∀ later ∈ after, report.acts later = false) :
    report.selection =
      { owner := some found.option, ahead := (before.filter report.yields).map (·.option) } := by
  have hnone : after.filter report.acts = [] := by
    rw [List.filter_eq_nil_iff]
    intro later hlater
    simp [hafter later hlater]
  have hacting : report.actingOptions =
      (before.filter report.acts).map (·.option) ++ [found.option] := by
    rw [actingOptions_eq, hsplit, List.filter_append, List.filter_cons_of_pos hacts, hnone,
      List.map_append]
    rfl
  have hahead : (before.filter report.acts).filter report.yields = before.filter report.yields := by
    rw [List.filter_filter]
    refine List.filter_congr fun earlier _ => ?_
    cases hyields : report.yields earlier with
    | false => rfl
    | true => rw [acts_of_yields hyields, Bool.true_and]
  rw [selection, hacting, List.getLast?_concat]
  simp only [List.dropLast_concat, List.filter_map]
  rw [← hahead]
  rfl

/-- Without acting options, it is the deepest command that may be selected. -/
theorem selection_of_forall_not_acts (h : ∀ found ∈ report.options, report.acts found = false) :
    report.selection =
      if (report.tree.command? report.terminal).any (·.action.isSome) then
        { owner := some report.terminal }
      else {} := by
  have hnone : report.options.filter report.acts = [] := by
    rw [List.filter_eq_nil_iff]
    intro found hfound
    simp [h found hfound]
  rw [selection, actingOptions_eq, hnone]
  rfl

/-- A genuine report selects what is to be selected. -/
theorem Genuine.selects (h : report.Genuine) : report.Selects where
  ordered := h.pairwise_options
  last hacts := by
    obtain ⟨before, found, after, hsplit, hfound, hafter⟩ := Sequence.exists_last hacts
    rw [selection_of_last hsplit hfound hafter]
    exact ⟨before, found, after, hsplit, hfound, hafter, rfl, rfl⟩
  fallback hnone := by
    rw [selection_of_forall_not_acts hnone]
    split <;> exact ⟨rfl, rfl⟩
  nodup := report.nodup_owners
  action? := by
    rw [Report.action?]
    cases howner : report.selection.owner with
    | none => rfl
    | some id =>
      have hid : id ∈ report.owners := by simp [owners, howner]
      obtain ⟨action, haction⟩ := Option.isSome_iff_exists.mp (isSome_action?_of_mem_owners hid)
      simp [haction]
  actionsAhead := map_action?_of_subset (List.subset_append_left _ _)

end Report

/-! ## A token that is read while no option takes values -/

namespace Cursor

/-- The cursor when no option takes values any more. -/
def release (cursor : Cursor) : Cursor := { cursor with taking := none }

variable {setting : Setting β} {cursor : Cursor} {token : String} {tokens : List String}

/-- A token is placed alike whether or not an option was taking values. -/
theorem place_release (cursor : Cursor) (token : String) :
    cursor.release.place token = cursor.place token := by
  have hslots : cursor.release.slots = cursor.slots := rfl
  simp only [place, hslots]
  cases cursor.slots.dropWhile (·.2 == 0) <;> rfl

/-- A token that is no value of an option is read as if no option were taking values. -/
theorem step_release (h : ∀ option, (cursor.step setting token).readings ≠
      cursor.readings ++ [⟨token, cursor.readings.length, cursor.command, .optionValue option⟩]) :
    cursor.release.step setting token = cursor.step setting token := by
  have hplain : cursor.literal = false →
      cursor.step setting token = cursor.stepPlain token →
        cursor.release.stepPlain token = cursor.stepPlain token := by
    intro hliteral hstep
    cases htaking : cursor.taking.filter (·.accepts token) with
    | none =>
      have hplace := place_release cursor token
      simp only [stepPlain, htaking]
      exact hplace
    | some taking =>
      refine absurd ?_ (h taking.option)
      rw [hstep, stepPlain, htaking]
      rfl
  have hliteral : cursor.release.literal = cursor.literal := rfl
  have hcommand : cursor.release.command = cursor.command := rfl
  simp only [step, hliteral, hcommand, place_release] at hplain ⊢
  cases hfalse : cursor.literal with
  | true => rfl
  | false =>
    cases hsight : setting.sight cursor.command token with
    | option id inline => cases inline <;> rfl
    | plain => exact hplain hfalse (by rw [hfalse, hsight]; rfl)
    | torn => exact hplain hfalse (by rw [hfalse, hsight]; rfl)
    | _ => rfl

/-- If the next token is no value of an option, all tokens are read as if no option were taking
values. -/
theorem readings_foldl_release (h : ∀ reading,
      (tokens.foldl (Cursor.step setting) cursor).readings[cursor.readings.length]? = some reading →
        ∀ option, reading.meaning ≠ .optionValue option) :
    (tokens.foldl (Cursor.step setting) cursor.release).readings =
      (tokens.foldl (Cursor.step setting) cursor).readings := by
  cases tokens with
  | nil => rfl
  | cons token rest =>
    rw [List.foldl_cons, List.foldl_cons, step_release]
    intro option hreadings
    obtain ⟨tail, htail⟩ := readings_isPrefix_foldl_step setting (cursor.step setting token) rest
    refine h ⟨token, cursor.readings.length, cursor.command, .optionValue option⟩ ?_ option rfl
    rw [List.foldl_cons, ← htail, hreadings, List.append_assoc,
      List.getElem?_append_right (Nat.le_refl _), Nat.sub_self]
    rfl

/-- In front of a token that is no value of an option, one more option with a value in its token
only moves what is read behind it. -/
theorem exists_readings_insert {id : SymbolId} {value : String} (hliteral : cursor.literal = false)
    (hsight : setting.sight cursor.command token = .option id (some value))
    (h : ∀ reading,
      (tokens.foldl (Cursor.step setting) cursor).readings[cursor.readings.length]? = some reading →
        ∀ option, reading.meaning ≠ .optionValue option) :
    ∃ tail : List Reading,
      (tokens.foldl (Cursor.step setting) cursor).readings =
        cursor.readings ++ tail.map (Reading.shift cursor.readings.length) ∧
      (tokens.foldl (Cursor.step setting) (cursor.step setting token)).readings =
        cursor.readings ++
          ⟨token, cursor.readings.length, cursor.command,
            .option id (setting.inlineValues id value)⟩ ::
          tail.map (Reading.shift (cursor.readings.length + 1)) := by
  -- What follows is read from the same cursor behind different readings.
  have hfollows := foldl_step_prepend setting { cursor.release with readings := [] }
  refine ⟨(tokens.foldl (Cursor.step setting) { cursor.release with readings := [] }).readings,
    ?_, ?_⟩
  · have hrelease : cursor.release =
        ({ cursor.release with readings := [] } : Cursor).prepend cursor.readings := by
      simp [prepend, release]
    rw [← readings_foldl_release h, hrelease, hfollows]
    rfl
  · have hstep : cursor.step setting token =
        ({ cursor.release with readings := [] } : Cursor).prepend (cursor.readings ++
          [⟨token, cursor.readings.length, cursor.command,
            .option id (setting.inlineValues id value)⟩]) := by
      rw [step_inline hliteral hsight]
      simp [prepend, release, record]
    rw [hstep, hfollows, prepend, List.length_append, List.length_singleton, List.append_assoc]
    rfl

end Cursor

/-! ## A further occurrence of a matched option -/

namespace Report

/-- No option takes the token at a position as its value. -/
def Idle (report : Report β) (position : ℕ) : Prop :=
  ∀ reading, report.readings[position]? = some reading →
    ∀ option, reading.meaning ≠ .optionValue option

/-- One more occurrence of a matched option that comes between other readings does not matter to what
is selected. -/
theorem selection_of_insert {first second : Report β} {lead tail : List Reading} {reading : Reading}
    {option : SymbolId} {count : ℕ} (hsetting : first.setting = second.setting)
    (hstart : first.start = second.start)
    (hfirst : first.readings = lead ++ tail.map (Reading.shift count))
    (hsecond : second.readings = lead ++ reading :: tail.map (Reading.shift (count + 1)))
    (hreading : reading.option? = some option) (hmem : option ∈ lead.filterMap Reading.option?) :
    second.selection = first.selection := by
  have hview : ∀ {A : Type} (view : Reading → Option A),
      (∀ reading count, view (Reading.shift count reading) = view reading) → ∀ count,
        (tail.map (Reading.shift count)).filterMap view = tail.filterMap view := by
    intro A view hshift count
    rw [List.filterMap_map]
    exact List.filterMap_congr fun reading _ => hshift reading count
  refine selection_congr (congrArg Setting.tree hsetting).symm ?_ ?_
  · rw [optionIds, optionIds, hfirst, hsecond, List.filterMap_append, List.filterMap_append,
      List.filterMap_cons_some hreading, hview _ fun _ _ => rfl, hview _ fun _ _ => rfl,
      Sequence.eraseDups_insert_of_mem hmem]
  · have hdescent : reading.descent? = none := by
      obtain ⟨inline, hmeaning⟩ := Reading.exists_meaning_of_option? hreading
      rw [Reading.descent?, hmeaning]
    rw [terminal, terminal, hfirst, hsecond, List.filterMap_append, List.filterMap_append,
      List.filterMap_cons_none hdescent, hview _ fun _ _ => rfl, hview _ fun _ _ => rfl, hstart]

/-- A token that holds a matched option once more, with a value behind a delimiter, is put behind the
beginning of a command line where no option takes what follows. -/
structure Repeats (opening report : Report β) (token : String) (option : SymbolId) : Prop where
  matched : (opening.option? option).isSome
  /-- At the deepest command of the beginning, the token is the option with a value and nothing else. -/
  named : ∃ text value, Inline.Cuts opening.config.inlineDelimiters token text value ∧
    (opening.tree.scope opening.terminal).resolve text = some option
  subcommand : opening.tree.subcommand? opening.terminal token = none
  resolve : (opening.tree.scope opening.terminal).resolve token = none
  idle : report.Idle opening.tokens.length

end Report

namespace CommandTree

variable {tree : CommandTree β} {config : Config} {start option : SymbolId}
  {before after : List String} {token : String}

/-- A further occurrence of a matched option does not matter to what is selected. -/
theorem selection_insert (hdelimiters : ∀ d ∈ config.inlineDelimiters, d.utf8Size = 1)
    (hdash : "--" ∉ before)
    (h : (tree.report config start before).Repeats (tree.report config start (before ++ after)) token
      option) :
    (tree.report config start (before ++ token :: after)).selection =
      (tree.report config start (before ++ after)).selection := by
  obtain ⟨text, value, hcuts, hresolve⟩ := h.named
  have hterminal : (tree.report config start before).terminal =
      (tree.cursorAfter config start before).command :=
    (consistent_cursorAfter before).command.symm
  have hsight : (Setting.of tree config).sight (tree.cursorAfter config start before).command token =
      .option option (some value) := by
    rw [← hterminal]
    exact Setting.sight_of_split hcuts.ne_doubleDash h.subcommand h.resolve
      (Inline.split_of_cuts hdelimiters hcuts) hresolve
  have hliteral := Cursor.literal_foldl_step (Setting.of tree config)
    (show (Cursor.start (Setting.of tree config) start).literal = false from rfl) hdash
  have hidle := h.idle
  rw [Report.Idle, Report.tokens, List.length_map, readings_report_append] at hidle
  obtain ⟨tail, hfirst, hsecond⟩ := Cursor.exists_readings_insert hliteral hsight hidle
  exact Report.selection_of_insert rfl rfl ((readings_report_append _ _).trans hfirst)
    ((readings_report_append _ _).trans hsecond) rfl
    (Report.mem_optionIds.mp (Report.isSome_option?_iff.mp h.matched))

/-- Every command line that is parsed against a reachable tree, with delimiters of one byte, selects
the last matched option that has an action, or else the deepest command; the actions of earlier options
run ahead unless they are exclusive, and every selected symbol has its action. A further occurrence of
a matched option, in one token with its value, in front of any `--` and where no option takes what
follows, changes nothing of that. -/
theorem exists_selects (h : Reachable tree) (hstart : (tree.symbol? start).isSome)
    (hdelimiters : ∀ d ∈ config.inlineDelimiters, d.utf8Size = 1) (texts : List String) :
    ∃ report, tree.parse config start texts = .ok report ∧ report.Selects ∧
      ∀ before after opening token option, texts = before ++ after → "--" ∉ before →
        tree.parse config start before = .ok opening → opening.Repeats report token option →
        ∃ longer, tree.parse config start (before ++ token :: after) = .ok longer ∧
          longer.selection = report.selection ∧ longer.action? = report.action? ∧
          longer.actionsAhead = report.actionsAhead := by
  refine ⟨_, parse_eq_report hstart hdelimiters texts, (h.wellFormed.genuine texts).selects, ?_⟩
  rintro before after opening token option rfl hdash hopening hrepeats
  rw [parse_eq_report hstart hdelimiters] at hopening
  obtain rfl := Except.ok.inj hopening
  have hselection := selection_insert hdelimiters hdash hrepeats
  exact ⟨_, parse_eq_report hstart hdelimiters _, hselection,
    Report.actions_congr rfl hselection⟩

/-- A program with three flags that act, the first of them along with others. -/
def staged : CommandTree Unit :=
  (new { name := "app" }).editAll
    [.addOption root
        { aliases := ["--trace"], action := some { exclusive := false, body := () } } false,
      .addOption root { aliases := ["--check"], action := some { body := () } } false,
      .addOption root { aliases := ["--doctor"], action := some { body := () } } false]

/-- Edits make the program out of a root command. -/
theorem reachable_staged : Reachable staged := (Reachable.new _).editAll _

/-- The last of the flags is selected and the first one runs ahead, also if it is given once more. -/
theorem exists_selects_staged : ∃ report longer,
    staged.parse {} root (["--trace", "--check"] ++ ["--doctor"]) = .ok report ∧ report.Selects ∧
      report.selection = { owner := some 5, ahead := [1] } ∧
      staged.parse {} root (["--trace", "--check"] ++ "--trace=true" :: ["--doctor"]) = .ok longer ∧
      longer.selection = report.selection := by
  have hstart : (staged.symbol? root).isSome := by decide
  have hreport := @parse_eq_report Unit staged {} root hstart Config.utf8Size_eq_one
  obtain ⟨report, hparse, hselects, hinsert⟩ := exists_selects reachable_staged hstart
    Config.utf8Size_eq_one (["--trace", "--check"] ++ ["--doctor"])
  obtain rfl := Except.ok.inj ((hreport _).symm.trans hparse)
  have hcuts : Inline.Cuts ({} : Config).inlineDelimiters "--trace=true" "--trace" "true" :=
    ⟨⟨'=', by decide, rfl⟩, by simp, by decide⟩
  have hrepeats : (staged.report {} root ["--trace", "--check"]).Repeats
      (staged.report {} root (["--trace", "--check"] ++ ["--doctor"])) "--trace=true" 1 := {
    matched := by decide +kernel
    named := ⟨"--trace", "true", hcuts, by decide +kernel⟩
    subcommand := by decide +kernel
    resolve := by decide +kernel
    idle := by
      have hmeaning : ((staged.report {} root (["--trace", "--check"] ++ ["--doctor"])).readings[
          (staged.report {} root ["--trace", "--check"]).tokens.length]?).map (·.meaning) =
            some (.option 5 []) := by
        decide +kernel
      intro reading hreading option hoption
      rw [hreading, Option.map_some, hoption] at hmeaning
      cases hmeaning }
  obtain ⟨longer, hlonger, hselection, -⟩ :=
    hinsert _ _ _ _ _ rfl (by decide) (hreport _) hrepeats
  exact ⟨_, longer, hreport _, hselects, by decide +kernel, hlonger, hselection⟩

end CommandTree

end CommandLine
