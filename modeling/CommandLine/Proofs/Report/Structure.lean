import CommandLine.Proofs.Ledger.Entry
import CommandLine.Proofs.Reading.Recognition
import CommandLine.Proofs.Report.Violations

/-!
# How the parts of a report fit together

The commands, the options and the bindings of a report are kept apart, but each part is in its place
among the others. The path is a way down the tree on which each command is named by an alias of its
own, the options under its commands are the matched options in the order in which they were matched,
and every token that counts as an occurrence of an option is one, at the command where it stands.

No command, no option and no argument is there twice, so a look-up that takes the first one takes
the only one.
-/

namespace CommandLine

variable {β : Type}

/-- A change of the last member that adds to one of its parts adds to the end of all these parts. -/
theorem Sequence.flatMap_modifyLast {A B : Type} {values : List A} {change : A → A}
    {part : A → List B} {added : List B} (hne : values ≠ [])
    (hchange : ∀ value, part (change value) = part value ++ added) :
    (values.modifyLast change).flatMap part = values.flatMap part ++ added := by
  obtain ⟨before, last, rfl⟩ := (List.eq_nil_or_concat values).resolve_left hne
  rw [List.concat_eq_append, List.modifyLast_concat, List.flatMap_append, List.flatMap_append,
    List.flatMap_singleton, List.flatMap_singleton, hchange, List.append_assoc]

/-- A token that stands for an option at a command: it is an alias of the option, or it begins with
one in front of a delimiter. -/
inductive CommandTree.StandsFor (tree : CommandTree β) (delimiters : List Char)
    (command : SymbolId) (token : String) (option : SymbolId) : Prop where
  | whole (hresolve : (tree.scope command).resolve token = some option)
  | inline {text value : String} (hcuts : Inline.Cuts delimiters token text value)
      (hresolve : (tree.scope command).resolve text = some option)

namespace Report

/-- A report whose parts fit together. -/
structure Structured (report : Report β) : Prop where
  /-- The path begins where the command line is parsed from, and ends at the deepest command. -/
  first : report.path.head?.map (fun found => (found.command, found.token)) =
    some (report.start, none)
  last : report.path.getLast?.map (·.command) = some report.terminal
  /-- Each further command is a subcommand of the one before it, and answers to its token. -/
  descent : report.path.IsChain fun found sub =>
    sub.command ∈ report.tree.commands found.command ∧
      ∃ token, sub.token = some token ∧ report.tree.hasAlias sub.command token.text = true
  /-- No command, no option and no argument is there twice. -/
  commands : (report.path.map (·.command)).Nodup
  options : (report.options.map (·.option)).Nodup
  arguments : (report.bindings.map (·.argument)).Nodup
  /-- The options along the path are the matched options in order, each under its command. -/
  listed : report.path.flatMap (·.options) = report.options.map (·.option)
  under : ∀ stop ∈ report.path, ∀ found ∈ report.options,
    found.option ∈ stop.options ↔ stop.command = found.command
  /-- Each occurrence of an option stands for it at the command where it was read. -/
  occurrence : ∀ found ∈ report.options, ∀ token ∈ found.tokens,
    report.tree.StandsFor report.config.inlineDelimiters (report.commandAt token.position)
      token.text found.option

variable {report : Report β}

/-- The path is never empty. -/
theorem path_ne_nil (report : Report β) : report.path ≠ [] := List.cons_ne_nil _ _

/-- The path ends at the deepest command. -/
theorem command_getLast?_path (report : Report β) :
    report.path.getLast?.map (·.command) = some report.terminal := by
  rw [← List.getLast?_map, map_command_path, Reading.getLast?_path]
  rfl

/-- A command of the path lists the options that were matched under it. -/
theorem mem_options_iff {stop : CommandMatch} (hstop : stop ∈ report.path) {found : OptionMatch}
    (hfound : found ∈ report.options) :
    found.option ∈ stop.options ↔ stop.command = found.command := by
  have hlisted : stop.options =
      (report.options.filter (·.command = stop.command)).map (·.option) := by
    rw [eq_commandMatch_of_mem_path hstop]
    rfl
  have hkeys : (report.options.map (·.option)).Nodup := by
    rw [map_option_options]
    exact report.nodup_optionIds
  rw [hlisted, List.mem_map]
  constructor
  · rintro ⟨other, hother, hoption⟩
    obtain ⟨hother, hcommand⟩ := List.mem_filter.mp hother
    obtain rfl := List.inj_on_of_nodup_map hkeys hother hfound hoption
    exact (of_decide_eq_true hcommand).symm
  · intro hcommand
    exact ⟨found, List.mem_filter.mpr ⟨hfound, decide_eq_true hcommand.symm⟩, rfl⟩

namespace Genuine

/-- A command that a token named on the path answers to the token. -/
theorem exists_alias (h : report.Genuine) {sub : CommandMatch} (hsub : sub ∈ report.path.tail) :
    ∃ token, sub.token = some token ∧ report.tree.hasAlias sub.command token.text = true := by
  obtain ⟨reading, hmem, hreading⟩ := List.mem_filterMap.mp hsub
  obtain ⟨command, hdescent, rfl⟩ := Option.map_eq_some_iff.mp hreading
  have hsight := (h.trace.sound hmem).sight_of_descent? hdescent
  have hanswers := List.find?_some (Setting.subcommand?_of_sight hsight)
  exact ⟨reading.token, rfl, hanswers⟩

/-- Each further command of the path is a subcommand of the one before it, and answers to its
token. -/
theorem isChain_path (h : report.Genuine) :
    report.path.IsChain fun found sub => sub.command ∈ report.tree.commands found.command ∧
      ∃ token, sub.token = some token ∧ report.tree.hasAlias sub.command token.text = true := by
  have hchain := h.trace.isChain_path
  rw [← map_command_path, List.isChain_map] at hchain
  refine hchain.imp_of_mem_tail_imp fun found sub _ hsub hmem => ?_
  exact ⟨hmem, h.exists_alias hsub⟩

/-- An occurrence of an option stands for it at the command where it was read. -/
theorem standsFor (h : report.Genuine) {found : OptionMatch} (hfound : found ∈ report.options)
    {token : Token} (htoken : token ∈ found.tokens) :
    report.tree.StandsFor report.config.inlineDelimiters (report.commandAt token.position)
      token.text found.option := by
  obtain ⟨option, -, rfl⟩ := List.mem_map.mp hfound
  obtain ⟨reading, hreading, rfl⟩ := List.mem_map.mp htoken
  obtain ⟨hmem, hoption⟩ := List.mem_filter.mp hreading
  change report.tree.StandsFor _ (report.commandAt reading.position) reading.text option
  rw [h.commandAt_eq hmem]
  rcases (h.trace.sound hmem).sight_of_option? (of_decide_eq_true hoption) with hsight |
    ⟨value, hsight⟩
  · exact .whole (h.scope ▸ Setting.resolve_of_sight hsight)
  · obtain ⟨text, hsplit, hresolve⟩ := Setting.split_of_sight hsight
    exact .inline (Inline.cuts_of_split hsplit) (h.scope ▸ hresolve)

/-! ## Options along the path -/

/-- If the options along the path are the matched options in order, they still are after one more
reading: a new option comes last among the matched ones, and last under the last command. -/
theorem flatMap_options_entry (h : report.Genuine) {reading : Reading}
    (hextended : (report.extend [reading]).Genuine)
    (hfits : reading.Fits report.setting report.start report.readings)
    (hlisted : report.path.flatMap (·.options) = report.optionIds) :
    (report.extend [reading]).path.flatMap (·.options) =
      (report.extend [reading]).optionIds := by
  have hinert : (∀ option, reading.option? = some option → option ∈ report.optionIds) →
      reading.descent? = none → reading.positional? = none →
      (report.extend [reading]).path.flatMap (·.options) =
        (report.extend [reading]).optionIds := by
    intro hoption hdescent hpositional
    rw [path_entry_of_inert hdescent hoption hpositional, optionIds_entry_of_mem hoption, hlisted]
  cases hmeaning : reading.meaning with
  | command sub =>
    have hnew : sub ∉ Reading.path report.start report.readings := by
      have hnodup := hextended.trace.nodup_path hextended.wellFormed
      change (Reading.path report.start (report.readings ++ [reading])).Nodup at hnodup
      rw [Reading.path_append_singleton, Reading.descent?, hmeaning, List.nodup_append] at hnodup
      exact fun hmem => hnodup.2.2 sub hmem sub List.mem_cons_self rfl
    rw [h.path_entry_of_descent hmeaning hnew, List.flatMap_append, hlisted,
      optionIds_entry_of_mem (by simp [Reading.option?, hmeaning])]
    exact List.append_nil _
  | option option inline =>
    have hoption : reading.option? = some option := by rw [Reading.option?, hmeaning]
    by_cases hmem : option ∈ report.optionIds
    · refine hinert ?_ (by rw [Reading.descent?, hmeaning]) (by rw [Reading.positional?, hmeaning])
      intro other hother
      rw [hoption] at hother
      exact Option.some.inj hother ▸ hmem
    · rw [h.path_entry_of_option hfits.command hmeaning hmem,
        Sequence.flatMap_modifyLast report.path_ne_nil fun _ => rfl, hlisted,
        optionIds_entry_of_notMem hoption hmem]
  | positional argument =>
    have hargument : argument ∈ report.tree.arguments reading.command :=
      hextended.mem_arguments_of_reading (List.mem_append_right _ List.mem_cons_self) hmeaning
    rw [h.path_entry_of_positional hfits.command hmeaning hargument,
      optionIds_entry_of_mem (by simp [Reading.option?, hmeaning]), ← hlisted]
    refine (Sequence.flatMap_modifyLast report.path_ne_nil fun _ => ?_).trans (List.append_nil _)
    exact (List.append_nil _).symm
  | _ =>
    apply hinert
    · simp [Reading.option?, hmeaning]
    · rw [Reading.descent?, hmeaning]
    · rw [Reading.positional?, hmeaning]

/-- The options along the path are the matched options in the order in which they were matched. -/
theorem flatMap_options_path (h : report.Genuine) :
    report.path.flatMap (·.options) = report.optionIds := by
  obtain ⟨setting, start, readings⟩ := report
  have htrace : Trace setting start readings := h.trace
  induction htrace with
  | nil => rfl
  | @snoc before reading hbefore hfits ih =>
    have hearlier : (Report.mk setting start before).Genuine := ⟨h.wellFormed, h.scope, hbefore⟩
    exact hearlier.flatMap_options_entry h hfits (ih hearlier)

/-- The parts of a genuine report fit together. -/
theorem structured (h : report.Genuine) : report.Structured where
  first := rfl
  last := report.command_getLast?_path
  descent := h.isChain_path
  commands := by
    rw [map_command_path]
    exact h.trace.nodup_path h.wellFormed
  options := by
    rw [map_option_options]
    exact report.nodup_optionIds
  arguments := h.nodup_bindings
  listed := by rw [h.flatMap_options_path, map_option_options]
  under _ hstop _ hfound := mem_options_iff hstop hfound
  occurrence _ hfound _ htoken := h.standsFor hfound htoken

end Genuine

end Report

namespace CommandTree

variable {tree : CommandTree β} {config : Config} {start : SymbolId}

/-- From a command of a reachable tree, with delimiters of one byte, every command line is parsed,
and the parts of the report fit together. -/
theorem exists_structured (h : Reachable tree) (hstart : (tree.command? start).isSome)
    (hdelimiters : ∀ d ∈ config.inlineDelimiters, d.utf8Size = 1) (texts : List String) :
    ∃ report, tree.parse config start texts = .ok report ∧ report.Structured :=
  ⟨_, parse_eq_report (isSome_symbol?_of_command? hstart) hdelimiters texts,
    (h.wellFormed.genuine texts).structured⟩

/-- An option that is given above and below a subcommand stays under the command where it was given
first. -/
theorem exists_structured_sample : ∃ report,
    sample.parse {} root ["-t", "a", "build", "--tag=b", "7"] = .ok report ∧ report.Structured :=
  exists_structured reachable_sample (by decide) Config.utf8Size_eq_one _

end CommandTree

end CommandLine
