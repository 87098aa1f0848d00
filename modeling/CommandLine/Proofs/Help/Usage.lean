import CommandLine.Proofs.CommandTree.Ancestors
import CommandLine.Proofs.Help.Page
import CommandLine.Proofs.Report.Culprit
import CommandLine.Proofs.Report.Distribution

/-!
# What a usage line promises

A usage line names the commands from the root on, then the positional arguments that are not hidden,
and says whether there are options and subcommands to be given. It is made apart from the sections of
the help text, and agrees with them and with the lines that they are printed as.

How an argument is written in it is a promise about parsing. Brackets say that no command line on
which the argument is given nothing is blamed for that, and dots say that the argument takes a token
which is placed while its slot is the current one and has one value.
-/

namespace CommandLine

variable {β : Type}

/-- An argument in a usage line: one that can be left out stands in brackets, and one that takes
several values has dots behind its name. -/
def HelpStyle.placeholder (name : String) (optional several : Bool) : String :=
  let text := "<" ++ name ++ ">" ++ if several then "..." else ""
  if optional then "[" ++ text ++ "]" else text

namespace CommandTree

/-- Whenever a command is on the path and an argument is given nothing, no error about the number of
its values is reported. -/
def CanOmit (tree : CommandTree β) (config : Config) (command argument : SymbolId) : Prop :=
  ∀ start texts report, tree.parse config start texts = .ok report →
    command ∈ report.path.map (·.command) → report.valuesOf argument = [] →
    ∀ error ∈ report.errors, error.kind = .arityViolation → error.symbol ≠ some argument

/-- A token that is read after others, and is placed while the slot of an argument is the current one
and has one value. -/
structure ComesSecond (tree : CommandTree β) (config : Config) (start argument : SymbolId)
    (texts : List String) (token : String) : Prop where
  parsed : ∃ report, tree.parse config start (texts ++ [token]) = .ok report
  current : (tree.cursorAfter config start texts).slots.head?.map (·.1) = some argument
  held : ((tree.report config start texts).valuesOf argument).length = 1
  placed : (tree.cursorAfter config start texts).step (Setting.of tree config) token =
    (tree.cursorAfter config start texts).place token

/-- A token becomes the last value of an argument. -/
def IsTaken (tree : CommandTree β) (config : Config) (start argument : SymbolId)
    (texts : List String) (token : String) : Prop :=
  (tree.report config start (texts ++ [token])).valuesOf argument =
    (tree.report config start texts).valuesOf argument ++ [⟨token, texts.length⟩]

/-- The text of an argument in a usage line, and what its brackets and its dots promise. -/
structure Promises (tree : CommandTree β) (config : Config) (command argument : SymbolId)
    (text : String) (optional several : Bool) : Prop where
  written : text = HelpStyle.placeholder (tree.name argument) optional several
  omitted : optional = true ↔ tree.CanOmit config command argument
  /-- There are dots if there is a second token that is taken. -/
  second : several = true ↔ ∃ start texts token,
    tree.ComesSecond config start argument texts token ∧
      tree.IsTaken config start argument texts token
  /-- Every second token is taken if there are dots, and none is if there are not. -/
  taken : ∀ start texts token, tree.ComesSecond config start argument texts token →
    (tree.IsTaken config start argument texts token ↔ several = true)

/-- A usage line that agrees with the page it is on, with the lines that rows of the page are printed
on, and with the parser. -/
structure UsageAgrees (tree : CommandTree β) (config : Config) (command : SymbolId)
    (page : HelpPage) (lines : HelpLines) : Prop where
  /-- The line has the names from the root on, what the arguments section has on the left, and a word
  for each of the other two sections that is there. -/
  usage : ∃ chain, tree.Lineage command chain ∧ (command :: chain).getLast? = some root ∧
    page.usage = " ".intercalate ((command :: chain).reverse.map tree.name
      ++ page.arguments.map (·.first)
      ++ (if HelpStyle.sectionText "Options" page.options = "" then [] else ["[options]"])
      ++ (if HelpStyle.sectionText "Commands" page.commands = "" then [] else ["[command]"]))
  /-- These two sections are there if lines are printed in them. -/
  sections : (HelpStyle.sectionText "Options" page.options = "" ↔ lines.options = []) ∧
    (HelpStyle.sectionText "Commands" page.commands = "" ↔ lines.commands = [])
  /-- The arguments section has one line for each row, and the line begins with the left column. -/
  printed : List.Forall₂ HelpPage.Begins (page.arguments.map (·.first)) lines.arguments
  /-- There is a row for each argument that is not hidden, in order. -/
  arguments : List.Forall₂
    (fun argument row => ∃ optional several,
      tree.Promises config command argument row.first optional several)
    ((tree.arguments command).filter (!tree.isHidden ·)) page.arguments

variable {tree : CommandTree β} {config : Config} {start command argument : SymbolId}
  {node : ArgumentNode} {texts : List String} {token : String} {report : Report β}

/-! ## Brackets -/

/-- A command line without tokens is parsed. -/
theorem parse_nil (h : (tree.symbol? start).isSome) (config : Config) :
    tree.parse config start [] = .ok (tree.report config start []) :=
  parse_of_read h rfl

end CommandTree

namespace Report

variable {report : Report β} {command argument : SymbolId} {node : ArgumentNode}
  {found : CommandMatch} {error : ParseError}

/-- An error about a number of values is about a binding, or about an argument without one. -/
theorem mem_bindingErrors_of_kind (h : error ∈ report.errors) (hkind : error.kind = .arityViolation) :
    error ∈ report.bindingErrors := by
  rw [errors, List.mem_append, List.mem_append, List.mem_append] at h
  rcases h with ((hunrecognized | hbinding) | hvalidation) | homission
  · rw [kind_of_mem_unrecognizedErrors hunrecognized] at hkind
    cases hkind
  · exact hbinding
  · rw [kind_of_mem_validationErrors hvalidation] at hkind
    cases hkind
  · rcases kind_of_mem_omissionErrors homission with homitted | homitted
    · rw [homitted] at hkind
      cases hkind
    · rw [homitted] at hkind
      cases hkind

/-- An argument without values is reported as missing if it needs a value and has no default. -/
theorem missingArgument?_of_needs (hnode : report.tree.argument? argument = some node)
    (hunbound : ∀ binding ∈ found.arguments, binding.argument ≠ argument)
    (hleast : 0 < node.arity.least) (hdefault : node.default = none) :
    report.missingArgument? found argument =
      some ⟨.tooFew (.command (report.tree.name found.command)), found.token.map (·.position),
        some argument⟩ := by
  have hall : found.arguments.all (·.argument ≠ argument) = true := by
    rw [List.all_eq_true]
    intro binding hbinding
    exact decide_eq_true (hunbound binding hbinding)
  rw [missingArgument?, hnode]
  simp only [hall, hleast, hdefault, Option.isNone_none, and_self, if_true]

/-- What is reported as missing needs a value and has no default, and the error says which it is. -/
theorem of_missingArgument? (h : report.missingArgument? found argument = some error) :
    error.symbol = some argument ∧ ∃ node, report.tree.argument? argument = some node ∧
      0 < node.arity.least ∧ node.default = none := by
  rw [missingArgument?] at h
  cases hnode : report.tree.argument? argument with
  | none =>
    rw [hnode] at h
    cases h
  | some node =>
    simp only [hnode, Option.isNone_iff_eq_none] at h
    split at h
    · rename_i hneeds
      rw [← Option.some.inj h]
      exact ⟨rfl, node, rfl, hneeds.2⟩
    · cases h

namespace Genuine

/-- A positional argument that is given nothing has no binding. -/
theorem argument_ne_of_valuesOf (h : report.Genuine)
    (hargument : argument ∈ report.tree.arguments command) (hvalues : report.valuesOf argument = []) :
    ∀ binding ∈ report.bindings, binding.argument ≠ argument := by
  intro binding hbinding hsame
  rcases mem_bindings_iff.mp hbinding with ⟨_, -, other, hgiven, rfl⟩ | ⟨option, hoption, rfl⟩
  · have hother : other = argument := hsame
    obtain ⟨reading, hmem, -, hmeaning⟩ := mem_argumentIds.mp hgiven
    rw [h.valuesOf_eq, List.flatMap_eq_nil_iff] at hvalues
    have hnone := hvalues reading hmem
    rw [← h.positionalValues_eq hargument hmem, ← hother] at hnone
    simp [Reading.positionalValues, hmeaning] at hnone
  · have hslot : report.slotId option = argument := hsame
    exact h.slotId_notMem_arguments hoption (hslot ▸ hargument)

/-- No error is about the number of values of a positional argument that is given nothing, if it needs
no value or has a default. -/
theorem symbol_ne_of_arityViolation (h : report.Genuine)
    (hargument : argument ∈ report.tree.arguments command)
    (hnode : report.tree.argument? argument = some node)
    (hspared : node.arity.least = 0 ∨ node.default.isSome)
    (hvalues : report.valuesOf argument = []) (herror : error ∈ report.errors)
    (hkind : error.kind = .arityViolation) : error.symbol ≠ some argument := by
  intro hsymbol
  have hunbound := h.argument_ne_of_valuesOf hargument hvalues
  have hbound : ∀ binding ∈ report.bindings, error.symbol ≠ some binding.argument := by
    intro binding hbinding hother
    rw [hsymbol] at hother
    exact hunbound binding hbinding (Option.some.inj hother).symm
  have hmade := mem_bindingErrors_of_kind herror hkind
  rw [bindingErrors, List.mem_append, List.mem_filterMap, List.mem_flatMap] at hmade
  rcases hmade with ⟨found, hfound, hmade⟩ | ⟨found, hfound, hmade⟩
  · have hmem : found.binding ∈ report.bindings :=
      List.mem_append_right _ (List.mem_map_of_mem hfound)
    exact hbound found.binding hmem (symbol_of_bindingError? hmade)
  · rw [argumentErrors, List.mem_append, List.mem_filterMap, List.mem_filterMap] at hmade
    rcases hmade with ⟨binding, hbinding, hmade⟩ | ⟨other, -, hmade⟩
    · have hmem : binding ∈ report.bindings :=
        List.mem_append_left _ (List.mem_flatMap.mpr ⟨found, hfound, hbinding⟩)
      exact hbound binding hmem (symbol_of_bindingError? hmade)
    · obtain ⟨hother, needy, hneedy, hleast, hdefault⟩ := of_missingArgument? hmade
      rw [hsymbol] at hother
      rw [← Option.some.inj hother, hnode] at hneedy
      obtain rfl := Option.some.inj hneedy
      rcases hspared with hzero | hsome
      · omega
      · rw [hdefault] at hsome
        cases hsome

end Genuine

end Report

namespace CommandTree

variable {tree : CommandTree β} {config : Config} {start command argument : SymbolId}
  {node : ArgumentNode} {texts : List String} {token : String}

/-- An argument that needs no value or has a default can be left out, and no other one can. -/
theorem WellFormed.canOmit_iff (h : tree.WellFormed) (hcommand : (tree.command? command).isSome)
    (hargument : argument ∈ tree.arguments command)
    (hnode : tree.argument? argument = some node) :
    tree.CanOmit config command argument ↔ node.arity.least = 0 ∨ node.default.isSome := by
  constructor
  · intro homit
    by_contra hneeds
    rw [not_or, Option.not_isSome_iff_eq_none] at hneeds
    -- The command alone, without any token, is blamed for the argument.
    have hgenuine := @WellFormed.genuine β tree config command h []
    have hmissing : (tree.report config command []).missingArgument?
        ((tree.report config command []).commandMatch command none) argument =
          some ⟨.tooFew (.command (tree.name command)), none, some argument⟩ :=
      Report.missingArgument?_of_needs hnode nofun (Nat.pos_of_ne_zero hneeds.1) hneeds.2
    refine homit command [] _ (parse_nil (isSome_symbol?_of_command? hcommand) config)
      List.mem_cons_self (hgenuine.valuesOf_eq argument)
      ⟨.tooFew (.command (tree.name command)), none, some argument⟩ ?_ rfl rfl
    refine List.mem_append_left _ (List.mem_append_left _ (List.mem_append_right _ ?_))
    refine List.mem_append_right _ (List.mem_flatMap.mpr ⟨_, List.mem_cons_self, ?_⟩)
    exact List.mem_append_right _ (List.mem_filterMap.mpr ⟨argument, hargument, hmissing⟩)
  · intro hspared start texts report hparse _ hvalues error herror hkind
    obtain rfl := eq_report_of_parse hparse
    exact (h.genuine texts).symbol_ne_of_arityViolation hargument hnode hspared hvalues herror hkind

end CommandTree

/-! ## Dots -/

/-- One more member is taken from the front of a list if there is room for it. -/
theorem Sequence.take_append_singleton_iff {A : Type} {values : List A} {last : A} {count : ℕ} :
    (values ++ [last]).take count = values.take count ++ [last] ↔ values.length < count := by
  constructor
  · intro htake
    have hlength := congrArg List.length htake
    rw [List.length_take, List.length_append, List.length_append, List.length_take,
      List.length_singleton] at hlength
    omega
  · intro hroom
    have hboth : (values ++ [last]).length ≤ count := by
      rw [List.length_append, List.length_singleton]
      exact hroom
    rw [List.take_of_length_le hboth, List.take_of_length_le (Nat.le_of_lt hroom)]

/-- Only a reading of a positional argument deals something to it. -/
theorem Reading.meaning_of_dealt? {reading : Reading} {command argument : SymbolId}
    (h : dealtTo (some argument) ([reading].filterMap (Reading.dealt? command)) ≠ []) :
    reading.meaning = .positional argument := by
  by_contra hother
  apply h
  rw [dealtTo, List.filterMap_filterMap, List.filterMap_eq_nil_iff, List.forall_mem_singleton]
  by_cases hcommand : reading.command = command
  · cases hmeaning : reading.meaning with
    | positional other =>
      rw [hmeaning, Meaning.positional.injEq] at hother
      simp [Reading.dealt?, hmeaning, hother]
    | _ => simp [Reading.dealt?, hmeaning]
  · simp [Reading.dealt?, hcommand]

namespace Cursor

variable {setting : Setting β} {cursor next : Cursor} {token : String} {argument : SymbolId}

/-- Once everything is literal it stays so. -/
theorem literal_foldl_step_of_literal (hliteral : cursor.literal = true) (tokens : List String) :
    (tokens.foldl (Cursor.step setting) cursor).literal = true := by
  induction tokens generalizing cursor with
  | nil => exact hliteral
  | cons token tokens ih =>
    obtain ⟨meaning, hstep⟩ := step_cases setting cursor token
    apply ih
    rw [hstep.literal_eq, hliteral, Bool.true_or]

/-- Once everything is literal, every token is placed under the current command. -/
theorem length_placed_of_literal {command : SymbolId} (hcommand : cursor.command = command)
    (hliteral : cursor.literal = true) (htaking : cursor.taking = none) (tokens : List String) :
    (cursor.placed setting command tokens).length = tokens.length := by
  subst hcommand
  have htexts : (cursor.placed setting cursor.command tokens).map (·.text) = tokens :=
    (foldl_step_of_passes htaking fun _ _ => .inl hliteral).1
  rw [← List.length_map (·.text), htexts]

/-- A first `--` is not placed. -/
theorem placed_doubleDash (hliteral : cursor.literal = false) (command : SymbolId)
    (tokens : List String) : cursor.placed setting command ("--" :: tokens) =
      (cursor.step setting "--").placed setting command tokens := by
  have hstep : Step setting cursor "--" .doubleDash _ :=
    .doubleDash hliteral (Setting.sight_eq_doubleDash_iff.mpr rfl)
  have hplace : cursor.step setting "--" ≠ cursor.place "--" := by
    intro hsame
    rw [step_doubleDash hliteral, hstep.eq_place_iff] at hsame
    simp at hsame
  rw [placed, if_neg fun hboth => hplace hboth.2, List.nil_append]

/-- The slot of an argument that a token went to is the current one. -/
theorem Step.head?_slots (h : Step setting cursor token (.positional argument) next) :
    next.slots.head?.map (·.1) = some argument := by
  cases h
  rfl

end Cursor

namespace CommandTree

variable {tree : CommandTree β} {config : Config} {start command argument : SymbolId}
  {before after : List SymbolId} {texts : List String} {token : String} {node : ArgumentNode}

/-- No command is current whose number is smaller than that of the first one. -/
theorem WellFormed.start_le_command (h : tree.WellFormed) (config : Config) (start : SymbolId)
    (texts : List String) : start ≤ (tree.cursorAfter config start texts).command := by
  have hcursor := @consistent_cursorAfter β tree config start texts
  have hpath := Reading.current_mem_path start (tree.cursorAfter config start texts).readings
  rw [← hcursor.command] at hpath
  rcases List.mem_cons.mp hpath with hfirst | hlater
  · exact Nat.le_of_eq hfirst.symm
  · exact Nat.le_of_lt (List.rel_of_pairwise_cons (hcursor.trace.pairwise_path h) hlater)

/-- A token that is placed is the last one of those that are placed under the current command. -/
theorem placed_append_singleton
    (hplaced : (tree.cursorAfter config start texts).step (Setting.of tree config) token =
      (tree.cursorAfter config start texts).place token) :
    tree.placed config start (tree.cursorAfter config start texts).command (texts ++ [token]) =
      tree.placed config start (tree.cursorAfter config start texts).command texts ++
        [⟨token, texts.length⟩] := by
  have hlength : (tree.cursorAfter config start texts).readings.length = texts.length :=
    length_readings_report texts
  rw [placed, Cursor.placed_append]
  change _ ++ (tree.cursorAfter config start texts).placed _ _ [token] = _
  rw [Cursor.placed, if_pos ⟨rfl, hplaced⟩, hlength]
  rfl

/-- A token comes second to an argument while the command of the argument is the current one. -/
theorem ComesSecond.command_eq (h : tree.ComesSecond config start argument texts token)
    (htree : tree.WellFormed) (hargument : argument ∈ tree.arguments command) :
    (tree.cursorAfter config start texts).command = command := by
  obtain ⟨slot, hslot, hcurrent⟩ := Option.map_eq_some_iff.mp h.current
  have hslots := (consistent_cursorAfter texts).slots slot (List.mem_of_head? hslot)
  rw [hcurrent] at hslots
  exact htree.eq_of_mem_arguments hslots hargument

/-- A token that comes second to an argument is taken if the argument takes several. -/
theorem WellFormed.isTaken_iff (h : tree.WellFormed) (hargument : argument ∈ tree.arguments command)
    (hsecond : tree.ComesSecond config start argument texts token) :
    tree.IsTaken config start argument texts token ↔ 1 < tree.most argument := by
  have hcommand := hsecond.command_eq h hargument
  have hle : start ≤ command := hcommand ▸ h.start_le_command config start texts
  have hplaced := placed_append_singleton hsecond.placed
  rw [hcommand] at hplaced
  obtain ⟨before, after, hsplit⟩ := List.append_of_mem hargument
  -- Behind the tokens of the arguments in front there is one token so far, and now there are two.
  have hheld := hsecond.held
  rw [IsTaken, h.valuesOf_report hle hsplit, h.valuesOf_report hle hsplit, hplaced]
  rw [h.valuesOf_report hle hsplit, List.length_take, List.length_drop] at hheld
  rw [List.drop_append_of_le_length (by omega), Sequence.take_append_singleton_iff,
    List.length_drop]
  omega

/-! A second token can come after `--`, where every token is placed. -/

/-- After `--` a command line is parsed, whatever the delimiters are. -/
theorem parse_doubleDash (h : (tree.symbol? start).isSome) (config : Config) (texts : List String) :
    tree.parse config start ("--" :: texts) = .ok (tree.report config start ("--" :: texts)) := by
  have htears : (Cursor.start (Setting.of tree config) start).tears (Setting.of tree config) "--" =
      false := by
    rw [Cursor.tears, Setting.sight_eq_doubleDash_iff.mpr rfl]
    rfl
  have hliteral : ((Cursor.start (Setting.of tree config) start).step (Setting.of tree config)
      "--").literal = true := by
    rw [Cursor.step_doubleDash rfl]
  apply parse_of_read h
  rw [Cursor.read, htears, if_neg Bool.false_ne_true, Cursor.read_of_literal hliteral]

/-- Behind `--` all tokens are placed under the first command. -/
theorem length_placed_doubleDash (tree : CommandTree β) (config : Config) (start : SymbolId)
    (texts : List String) :
    (tree.placed config start start ("--" :: texts)).length = texts.length := by
  rw [placed, Cursor.placed_doubleDash rfl, Cursor.step_doubleDash rfl]
  apply Cursor.length_placed_of_literal
  · rfl
  · rfl
  · rfl

/-- How many of the tokens behind `--` an argument of the first command gets. -/
theorem WellFormed.length_valuesOf_doubleDash (h : tree.WellFormed)
    (hsplit : tree.arguments command = before ++ argument :: after) :
    ((tree.report config command ("--" :: texts)).valuesOf argument).length =
      min (tree.most argument) (texts.length - (before.map tree.most).sum) := by
  rw [h.valuesOf_report (Nat.le_refl command) hsplit, List.length_take, List.length_drop,
    length_placed_doubleDash]

/-- If an argument has more values for one more token, its slot is current after the token. -/
theorem WellFormed.current_of_length_lt (h : tree.WellFormed)
    (hargument : argument ∈ tree.arguments command)
    (hgrows : ((tree.report config start texts).valuesOf argument).length <
      ((tree.report config start (texts ++ [token])).valuesOf argument).length) :
    (tree.cursorAfter config start (texts ++ [token])).slots.head?.map (·.1) = some argument := by
  obtain ⟨meaning, hstep⟩ := Cursor.step_cases (Setting.of tree config)
    (tree.cursorAfter config start texts) token
  have hafter : (tree.cursorAfter config start texts).step (Setting.of tree config) token =
      tree.cursorAfter config start (texts ++ [token]) := by
    rw [cursorAfter, cursorAfter, List.foldl_append]
    rfl
  rw [hafter] at hstep
  have hreadings : (tree.report config start (texts ++ [token])).readings =
    (tree.report config start texts).readings ++ [⟨token, _, _, meaning⟩] := hstep.readings
  rw [(h.genuine texts).valuesOf_eq_dealtTo hargument,
    (h.genuine (texts ++ [token])).valuesOf_eq_dealtTo hargument, hreadings, List.filterMap_append,
    dealtTo_append, List.length_append, Nat.lt_add_right_iff_pos, List.length_pos_iff] at hgrows
  obtain rfl := Reading.meaning_of_dealt? hgrows
  exact hstep.head?_slots

/-- An argument that takes several values can be given a second token. -/
theorem WellFormed.exists_comesSecond (h : tree.WellFormed)
    (hcommand : (tree.command? command).isSome) (hargument : argument ∈ tree.arguments command)
    (hmost : 1 < tree.most argument) :
    ∃ texts token, tree.ComesSecond config command argument texts token := by
  obtain ⟨before, after, hsplit⟩ := List.append_of_mem hargument
  -- As many tokens as the arguments in front can have, then one for the argument, then another one.
  have hlength : ∀ count, ((tree.report config command ("--" :: List.replicate count "")).valuesOf
      argument).length = min (tree.most argument) (count - (before.map tree.most).sum) := by
    intro count
    rw [h.length_valuesOf_doubleDash hsplit, List.length_replicate]
  have hone := hlength ((before.map tree.most).sum + 1)
  rw [Nat.add_sub_cancel_left, Nat.min_eq_right (Nat.le_of_lt hmost)] at hone
  refine ⟨"--" :: List.replicate ((before.map tree.most).sum + 1) "", "", ?_, ?_, hone, ?_⟩
  · exact ⟨_, parse_doubleDash (isSome_symbol?_of_command? hcommand) config _⟩
  · rw [List.replicate_succ', ← List.cons_append] at hone ⊢
    apply h.current_of_length_lt hargument
    rw [hone, hlength, Nat.sub_self, Nat.min_zero]
    exact Nat.one_pos
  · have hliteral : (tree.cursorAfter config command
        ("--" :: List.replicate ((before.map tree.most).sum + 1) "")).literal = true := by
      rw [cursorAfter, List.foldl_cons, Cursor.step_doubleDash rfl]
      exact Cursor.literal_foldl_step_of_literal rfl _
    rw [Cursor.step, if_pos hliteral]

/-! ## Usage lines -/

/-- An argument in a usage line is written by its numbers of values and its default. -/
theorem argumentUsage_eq (hnode : tree.argument? argument = some node) :
    HelpStyle.argumentUsage tree argument = HelpStyle.placeholder (tree.name argument)
      (decide (node.arity.least = 0 ∨ node.default.isSome)) (decide (1 < node.arity.most)) := by
  rw [HelpStyle.argumentUsage, HelpStyle.placeholder, arity?, role?_of_argument? hnode, hnode]
  simp only [Option.getD_some, Option.any_some, decide_eq_true_eq]

/-- What an argument in a usage line promises. -/
theorem WellFormed.exists_promises (h : tree.WellFormed) (config : Config)
    (hcommand : (tree.command? command).isSome) (hargument : argument ∈ tree.arguments command) :
    ∃ optional several, tree.Promises config command argument
      (HelpStyle.argumentUsage tree argument) optional several := by
  obtain ⟨node, hnode⟩ := Option.isSome_iff_exists.mp (h.of_mem_arguments hargument).1
  have hmost : tree.most argument = node.arity.most := by
    rw [most, hnode]
    rfl
  refine ⟨_, _, argumentUsage_eq hnode, ?_, ?_, ?_⟩
  · rw [decide_eq_true_eq, h.canOmit_iff hcommand hargument hnode]
  · rw [decide_eq_true_eq, ← hmost]
    constructor
    · intro hseveral
      obtain ⟨texts, token, hsecond⟩ := h.exists_comesSecond hcommand hargument hseveral
      exact ⟨command, texts, token, hsecond, (h.isTaken_iff hargument hsecond).mpr hseveral⟩
    · rintro ⟨start, texts, token, hsecond, htaken⟩
      exact (h.isTaken_iff hargument hsecond).mp htaken
  · intro start texts token hsecond
    rw [decide_eq_true_eq, ← hmost]
    exact h.isTaken_iff hargument hsecond

end CommandTree

namespace HelpStyle

variable {tree : CommandTree β} {command : SymbolId} {evaluations : Evaluations}

/-- A section is left out if it has no rows. -/
theorem sectionText_eq_empty_iff {title : String} {rows : List HelpRow} :
    sectionText title rows = "" ↔ rows = [] := by
  cases rows with
  | nil => exact iff_of_true rfl rfl
  | cons row rows =>
    simp [sectionText]

/-- Nothing is made one after another only if there is nothing to make it of. -/
theorem mapM_eq_nil_iff {A B : Type} (make : A → Evaluating B) (values : List A)
    (evaluations : Evaluations) : ((values.mapM make) evaluations).1 = [] ↔ values = [] := by
  have hlength : ((values.mapM make) evaluations).1.map (fun _ => ()) = values.map fun _ => () :=
    @map_mapM A B Unit make (fun _ => ()) (fun _ => ()) (fun _ _ => rfl) values evaluations
  rw [← List.map_eq_nil_iff, hlength, List.map_eq_nil_iff]

/-- Without overrides the arguments section has on its left what the usage line says. -/
theorem map_first_argumentRows (tree : CommandTree β) (command : SymbolId)
    (evaluations : Evaluations) :
    ((({} : HelpStyle).argumentRows tree command) evaluations).1.map (·.first) =
      (visible tree (tree.arguments command)).map (argumentUsage tree) := by
  apply map_mapM
  intro argument evaluations
  exact first_finishRow {} tree argument _ _ evaluations

/-- A section is there if something is listed in it. -/
theorem sectionText_mapM_eq_empty_iff {title : String} (make : SymbolId → Evaluating HelpRow)
    (symbols : List SymbolId) (evaluations : Evaluations) :
    sectionText title ((symbols.mapM make) evaluations).1 = "" ↔ symbols = [] := by
  rw [sectionText_eq_empty_iff, mapM_eq_nil_iff]

/-- The sections of a page are made one after another. -/
theorem exists_page_eq (style : HelpStyle) (tree : CommandTree β) (command : SymbolId)
    (evaluations : Evaluations) : ∃ second third, (style.page tree command evaluations).1 =
      ⟨tree.description? command, usage tree command,
        (style.argumentRows tree command evaluations).1,
        (style.optionRows tree (tree.scope command) second).1,
        (style.commandRows tree command third).1⟩ :=
  ⟨_, _, rfl⟩

/-- The parts of the usage line of a command. -/
theorem usageParts_eq (h : (tree.command? command).isSome) :
    usageParts tree (tree.scope command) command =
      (command :: tree.ancestors command).reverse.map tree.name
        ++ (visible tree (tree.arguments command)).map (argumentUsage tree)
        ++ (if visible tree (tree.scope command).options = [] then [] else ["[options]"])
        ++ (if visible tree (tree.commands command) = [] then [] else ["[command]"]) := by
  obtain ⟨node, hnode⟩ := Option.isSome_iff_exists.mp h
  simp only [usageParts, CommandTree.arguments, CommandTree.commands, hnode, List.reverse_cons,
    List.map_append, List.map_cons, List.map_nil, List.isEmpty_iff, Option.elim_some]

end HelpStyle

namespace CommandTree

variable {tree : CommandTree β} {command : SymbolId}

/-- The usage line of a command agrees with its page and with the parser. -/
theorem WellFormed.usageAgrees (h : tree.WellFormed) (hcommand : (tree.command? command).isSome)
    (config : Config) (evaluations : Evaluations) {lines : HelpLines} {text : String}
    (hprints : (({} : HelpStyle).page tree command evaluations).1.Prints lines text) :
    tree.UsageAgrees config command (({} : HelpStyle).page tree command evaluations).1 lines := by
  have hlineage := h.lineage_ancestors command
  obtain ⟨node, hnode⟩ := Option.isSome_iff_exists.mp hcommand
  have hfirsts := HelpStyle.map_first_argumentRows tree command evaluations
  obtain ⟨second, third, hpage⟩ := HelpStyle.exists_page_eq {} tree command evaluations
  rw [hpage] at hprints ⊢
  refine ⟨?_, ⟨?_, ?_⟩, HelpPage.forall₂_begins hprints.arguments, ?_⟩
  · refine ⟨_, hlineage, h.getLast?_lineage hlineage (lt_size_of_command? hnode), ?_⟩
    rw [hfirsts, HelpStyle.usage, HelpStyle.usageIn, HelpStyle.usageParts_eq hcommand]
    simp only [HelpStyle.optionRows, HelpStyle.commandRows,
      HelpStyle.sectionText_mapM_eq_empty_iff]
  · rw [HelpStyle.sectionText_eq_empty_iff]
    exact HelpPage.eq_nil_iff_of_forall₂ hprints.options
  · rw [HelpStyle.sectionText_eq_empty_iff]
    exact HelpPage.eq_nil_iff_of_forall₂ hprints.commands
  · rw [← List.forall₂_map_right_iff (R := fun argument text => ∃ optional several,
      tree.Promises config command argument text optional several) (f := HelpRow.first), hfirsts,
      List.forall₂_map_right_iff, HelpStyle.visible, List.forall₂_same]
    intro argument hargument
    exact h.exists_promises config hcommand (List.mem_of_mem_filter hargument)

/-- A program with `app copy`, which takes one to three sources, a target that has a default, and a
hidden argument. -/
def copying : CommandTree Unit :=
  (new { name := "app" }).editAll
    [.addOption root { aliases := ["--verbose"] } true,
      .addCommand root { name := "copy" },
      .addArgument 3 { name := "source", arity := some ⟨1, 3⟩ },
      .addArgument 3 { name := "target", default := some fun _ => .string "here" },
      .addArgument 3 { name := "token", hidden := true }]

example : HelpStyle.usage? copying 3 = some "app copy <source>... [<target>] [options]" := by
  decide +kernel

end CommandTree

end CommandLine
