import CommandLine.Proofs.Reading.Agreement
import CommandLine.Proofs.Report.Genuine
import CommandLine.Proofs.Scope.Enumeration
import CommandLine.Report.Origin
import CommandLine.Report.Selection

/-!
# The order of entries does not show

The entries of a scope's table are listed in three places: where the options of a scope are asked
for, where the aliases of an option are, and where a suggestion is looked for. Whatever the order in
which they are listed at each command, a command line is read in the same way, the same is wrong
with it, and the options and help texts of the commands are the same.
-/

namespace CommandLine

variable {β : Type}

/-- Two reports that say the same of a command line, its errors and the values of symbols aside. -/
structure Report.Alike (first second : Report β) : Prop where
  tokens : second.tokens = first.tokens
  /-- The commands with their options and the values of their positional arguments. -/
  path : second.path = first.path
  terminal : second.terminal = first.terminal
  /-- The matched options with their occurrences and raw values. -/
  options : second.options = first.options
  /-- What becomes of raw values, conversions included. -/
  settle : ∀ binding, second.settle binding = first.settle binding
  unmatched : second.unmatched = first.unmatched
  isMatched : ∀ id, second.isMatched id = first.isMatched id
  selection : second.selection = first.selection
  action? : second.action? = first.action?
  actionsAhead : second.actionsAhead = first.actionsAhead

/-- The scopes of a tree, the entries of each listed in some order. -/
def CommandTree.Arranged (tree : CommandTree β) (scopes : SymbolId → Scope) : Prop :=
  ∀ command, (tree.scope command).Reordered (scopes command)

/-- With delimiters of one byte parsing from a symbol of the tree succeeds in any setting. -/
theorem Setting.parse_eq_ok {setting : Setting β} {start : SymbolId}
    (hstart : (setting.tree.symbol? start).isSome)
    (hdelimiters : ∀ d ∈ setting.config.inlineDelimiters, d.utf8Size = 1) (texts : List String) :
    setting.parse start texts =
      .ok ⟨setting, start,
        (texts.foldl (Cursor.step setting) (Cursor.start setting start)).readings⟩ := by
  obtain ⟨symbol, hsymbol⟩ := Option.isSome_iff_exists.mp hstart
  simp only [parse, hsymbol, Cursor.read_eq_ok hdelimiters]

namespace CommandTree.Arranged

variable {tree : CommandTree β} {config : Config} {first second : SymbolId → Scope}
  {start : SymbolId}

/-- The scopes of a tree may be listed as they are. -/
theorem scope (tree : CommandTree β) : tree.Arranged tree.scope := fun _ => .refl _

/-- Each scope looks alike in two arrangements. -/
theorem alike_scope (hfirst : tree.Arranged first) (hsecond : tree.Arranged second)
    (command : SymbolId) : (first command).Alike (second command) := by
  have hreordered := Scope.Reordered.of_common (hfirst command) (hsecond command)
  exact hreordered.alike ((hfirst command).keyed (tree.keyed_scope command))

/-- Tokens are read alike in two arrangements. -/
theorem agreeAt (hfirst : tree.Arranged first) (hsecond : tree.Arranged second)
    (command : SymbolId) :
    Setting.AgreeAt ⟨tree, config, first⟩ ⟨tree, config, second⟩ command where
  sight := Setting.sight_congr rfl (fun _ => rfl) (hfirst.alike_scope hsecond command).resolve
  taking _ _ _ := rfl
  inlineValues _ _ _ _ := rfl
  slots := rfl

/-- The same readings say the same in two arrangements: only errors are drawn from scopes. -/
theorem alike (readings : List Reading) :
    Report.Alike (β := β) ⟨⟨tree, config, first⟩, start, readings⟩
      ⟨⟨tree, config, second⟩, start, readings⟩ :=
  ⟨rfl, rfl, rfl, rfl, fun _ => rfl, rfl, fun _ => rfl, rfl, rfl, rfl⟩

/-- The same is wrong with the same readings in two arrangements, in the same order and with the
same suggestions. -/
theorem errors_eq (hfirst : tree.Arranged first) (hsecond : tree.Arranged second)
    (readings : List Reading) :
    Report.errors (β := β) ⟨⟨tree, config, second⟩, start, readings⟩ =
      Report.errors ⟨⟨tree, config, first⟩, start, readings⟩ := by
  have hunrecognized :
      Report.unrecognized? (β := β) ⟨⟨tree, config, second⟩, start, readings⟩ =
        Report.unrecognized? ⟨⟨tree, config, first⟩, start, readings⟩ := by
    funext reading
    have hreordered := Scope.Reordered.of_common (hfirst reading.command) (hsecond reading.command)
    simp only [Report.unrecognized?, Report.tree, hreordered.nearest_candidates]
    rfl
  have homission :
      Report.omissionErrors (β := β) ⟨⟨tree, config, second⟩, start, readings⟩ =
        Report.omissionErrors ⟨⟨tree, config, first⟩, start, readings⟩ := by
    rw [Report.omissionErrors, Report.omissionErrors, (hfirst.alike_scope hsecond _).options]
    rfl
  rw [Report.errors, Report.errors, homission, Report.unrecognizedErrors,
    Report.unrecognizedErrors, hunrecognized]
  rfl

end CommandTree.Arranged

namespace CommandTree

variable {tree : CommandTree β} {config : Config} {first second : SymbolId → Scope}
  {start : SymbolId}

/-- The order in which the entries of scopes are listed does not show. From any command of a tree,
with delimiters of one byte, every command line is parsed in any two arrangements of the scopes, and
both reports say the same, with the same errors and suggestions and the same values. At every symbol
the same texts stand for the same options, in the same order, and usage line and help text are the
same. -/
theorem exists_alike_of_arranged (hfirst : tree.Arranged first) (hsecond : tree.Arranged second)
    (hstart : (tree.command? start).isSome)
    (hdelimiters : ∀ d ∈ config.inlineDelimiters, d.utf8Size = 1) (texts : List String) :
    (∃ before after, Setting.parse ⟨tree, config, first⟩ start texts = .ok before ∧
        Setting.parse ⟨tree, config, second⟩ start texts = .ok after ∧ before.Alike after ∧
        after.errors = before.errors ∧ ∀ id, after.valueOf id = before.valueOf id) ∧
      ∀ id, (first id).Alike (second id) ∧
        HelpStyle.usageIn tree (second id) id = HelpStyle.usageIn tree (first id) id ∧
        ∀ style : HelpStyle,
          style.renderIn tree (second id) id = style.renderIn tree (first id) id := by
  have hsymbol := isSome_symbol?_of_command? hstart
  refine ⟨⟨_, _, Setting.parse_eq_ok hsymbol hdelimiters texts,
    Setting.parse_eq_ok hsymbol hdelimiters texts, ?_⟩, fun id => ?_⟩
  · rw [Cursor.foldl_step_congr fun command _ => hfirst.agreeAt hsecond command]
    exact ⟨Arranged.alike _, hfirst.errors_eq hsecond _, fun _ => rfl⟩
  · have halike := hfirst.alike_scope hsecond id
    exact ⟨halike, HelpStyle.usageIn_congr halike tree id,
      fun style => HelpStyle.renderIn_congr halike style tree id⟩

/-- The scopes of a tree with their entries listed backwards. -/
def backwards (tree : CommandTree β) (command : SymbolId) : Scope :=
  { tree.scope command with entries := (tree.scope command).entries.reverse }

/-- Backwards is one of the orders. -/
theorem arranged_backwards (tree : CommandTree β) : tree.Arranged tree.backwards :=
  fun _ => ⟨rfl, List.reverse_perm _⟩

/-- A scope with five aliases, listed as it is and backwards, and a token that is equally near to
two of them. -/
theorem exists_alike_shadowed :
    ((shadowed.scope 5).entries ≠ (shadowed.backwards 5).entries ∧
        Suggestion.nearest "-y" (shadowed.candidates (shadowed.scope 5) 5) = some "-d") ∧
      (∃ before after,
        Setting.parse ⟨shadowed, {}, shadowed.scope⟩ 5 ["-y", "--dupes"] = .ok before ∧
          Setting.parse ⟨shadowed, {}, shadowed.backwards⟩ 5 ["-y", "--dupes"] = .ok after ∧
          before.Alike after ∧ after.errors = before.errors ∧
          ∀ id, after.valueOf id = before.valueOf id) ∧
      ∀ id, (shadowed.scope id).Alike (shadowed.backwards id) ∧
        HelpStyle.usageIn shadowed (shadowed.backwards id) id =
          HelpStyle.usageIn shadowed (shadowed.scope id) id ∧
        ∀ style : HelpStyle, style.renderIn shadowed (shadowed.backwards id) id =
          style.renderIn shadowed (shadowed.scope id) id :=
  ⟨by decide +kernel, exists_alike_of_arranged (Arranged.scope shadowed)
    (arranged_backwards shadowed) (by decide) Config.utf8Size_eq_one ["-y", "--dupes"]⟩

end CommandTree

end CommandLine
