import CommandLine.Proofs.CommandTree.Ancestors
import CommandLine.Proofs.Help.Usage
import CommandLine.Proofs.Scope.Enumeration
import Mathlib.Tactic.IntervalCases

/-!
# Hidden symbols in help

Help leaves out what is hidden, but it is written by going through all of the tree. So two trees are
compared that have the same links and aliases, and of which only hidden symbols are called, described
or made otherwise. Their help is the same, in any style, at every command that is the same with all of
its ancestors.

Links and aliases have to be the same. A hidden option takes its aliases away from the options further
out, and their rows show that.
-/

namespace CommandLine

variable {β : Type}

/-- Two symbols that hang in a tree in the same way and answer to the same texts. -/
structure Symbol.SamePlace (first second : Symbol β) : Prop extends first.SameLinks second where
  aliases : ∀ text, text ∈ first.aliases ↔ text ∈ second.aliases
  hidden : first.hidden = second.hidden
  inherited : first.option?.map (·.inherited) = second.option?.map (·.inherited)

namespace CommandTree

/-- A hidden command, option or positional argument, or the argument of a hidden option. -/
inductive Concealed (tree : CommandTree β) : SymbolId → Prop where
  | command {id : SymbolId} (hcommand : (tree.command? id).isSome)
      (hhidden : tree.isHidden id = true) : Concealed tree id
  | option {id : SymbolId} (hoption : (tree.option? id).isSome)
      (hhidden : tree.isHidden id = true) : Concealed tree id
  | slot {id option : SymbolId} (hslot : (tree.option? option).map (·.argument) = some id)
      (hhidden : tree.isHidden option = true) : Concealed tree id
  | argument {id parent : SymbolId} (hargument : id ∈ tree.arguments parent)
      (hhidden : tree.isHidden id = true) : Concealed tree id

/-- Two trees of the same shape that differ at most in concealed symbols. -/
structure Lookalike (first second : CommandTree β) : Prop where
  place : ∀ id, Option.Rel Symbol.SamePlace (first.symbol? id) (second.symbol? id)
  symbol? : ∀ id, ¬first.Concealed id → second.symbol? id = first.symbol? id

variable {first second : CommandTree β} {id command option argument : SymbolId}

/-! ## What is not concealed -/

/-- A concealed symbol that is not hidden is the argument of an option. -/
theorem Concealed.exists_option (h : first.Concealed id) (hhidden : first.isHidden id = false) :
    ∃ option node, first.option? option = some node ∧ node.argument = id := by
  cases h with
  | command _ htrue => simp [hhidden] at htrue
  | option _ htrue => simp [hhidden] at htrue
  | @slot option hslot _ =>
    obtain ⟨node, hnode, hsame⟩ := Option.map_eq_some_iff.mp hslot
    exact ⟨option, node, hnode, hsame⟩
  | argument _ htrue => simp [hhidden] at htrue

namespace WellFormed

/-- A command that is not hidden is not concealed. -/
theorem not_concealed_command (h : first.WellFormed) (hcommand : (first.command? id).isSome)
    (hhidden : first.isHidden id = false) : ¬first.Concealed id := by
  have hkind := kind?_eq_command_iff.mpr hcommand
  intro hconcealed
  obtain ⟨option, node, hnode, rfl⟩ := hconcealed.exists_option hhidden
  simp [kind?_eq_argument_iff.mpr (h.of_option? hnode).1] at hkind

/-- An option that is not hidden is not concealed. -/
theorem not_concealed_option (h : first.WellFormed) (hoption : (first.option? id).isSome)
    (hhidden : first.isHidden id = false) : ¬first.Concealed id := by
  have hkind := kind?_eq_option_iff.mpr hoption
  intro hconcealed
  obtain ⟨option, node, hnode, rfl⟩ := hconcealed.exists_option hhidden
  simp [kind?_eq_argument_iff.mpr (h.of_option? hnode).1] at hkind

/-- The argument of an option is no positional argument. -/
theorem notMem_arguments_of_option? (h : first.WellFormed) {node : OptionNode β}
    (hoption : first.option? option = some node) : node.argument ∉ first.arguments command := by
  intro hargument
  have hparent := (h.of_option? hoption).2
  rw [(h.of_mem_arguments hargument).2] at hparent
  obtain rfl := Option.some.inj hparent
  simp [option?_eq_none_of_mem_arguments hargument] at hoption

/-- A positional argument that is not hidden is not concealed. -/
theorem not_concealed_argument (h : first.WellFormed) (hargument : id ∈ first.arguments command)
    (hhidden : first.isHidden id = false) : ¬first.Concealed id := by
  intro hconcealed
  obtain ⟨option, node, hnode, rfl⟩ := hconcealed.exists_option hhidden
  exact h.notMem_arguments_of_option? hnode hargument

/-- The argument of an option that is not hidden is not concealed, whether it is hidden or not. -/
theorem not_concealed_slot (h : first.WellFormed) {node : OptionNode β}
    (hoption : first.option? id = some node) (hhidden : first.isHidden id = false) :
    ¬first.Concealed node.argument := by
  obtain ⟨hargument, hparent⟩ := h.of_option? hoption
  have hkind := kind?_eq_argument_iff.mpr hargument
  intro hconcealed
  cases hconcealed with
  | command hcommand _ => simp [kind?_eq_command_iff.mpr hcommand] at hkind
  | option hother _ => simp [kind?_eq_option_iff.mpr hother] at hkind
  | slot hslot htrue =>
    obtain ⟨other, hother, hsame⟩ := Option.map_eq_some_iff.mp hslot
    rw [← hsame, (h.of_option? hother).2] at hparent
    rw [Option.some.inj hparent, hhidden] at htrue
    cases htrue
  | argument hpositional _ => exact h.notMem_arguments_of_option? hoption hpositional

end WellFormed

/-! ## What look-alike trees share -/

/-- The way up depends on parents only. -/
theorem ancestors_congr (hparent : second.parent? = first.parent?) (id : SymbolId) :
    second.ancestors id = first.ancestors id := by
  induction id using Nat.strongRecOn with
  | ind id ih =>
    rw [ancestors, ancestors, hparent]
    cases first.parent? id with
    | none => rfl
    | some parent =>
      by_cases hlt : parent < id
      · simp only [hlt, dif_pos, ih parent hlt]
      · simp only [hlt, dif_neg, not_false_eq_true]

/-- Where an option stands in a scope does not depend on its aliases. -/
theorem order_register_congr {scope other : Scope} (h : other.order = scope.order)
    (option : SymbolId) (aliases others : List String) :
    (other.register option others).order = (scope.register option aliases).order := by
  simp only [Scope.register, h]

/-- The order of a scope depends on the declared options only. -/
theorem order_scope_congr (hdeclared : second.declaredOptions command = first.declaredOptions command) :
    (second.scope command).order = (first.scope command).order := by
  rw [scope, scope, hdeclared]
  induction first.declaredOptions command using List.reverseRecOn with
  | nil => rfl
  | append_singleton declared last ih =>
    rw [List.foldl_append, List.foldl_append]
    exact order_register_congr ih last _ _

namespace Lookalike

/-- What is the same of symbols at the same place is the same in look-alike trees. -/
theorem view_eq {A : Type} (h : first.Lookalike second) (view : Option (Symbol β) → A)
    (hview : ∀ symbol other : Symbol β, symbol.SamePlace other →
      view (some other) = view (some symbol)) (id : SymbolId) :
    view (second.symbol? id) = view (first.symbol? id) := by
  have hplace := h.place id
  revert hplace
  generalize first.symbol? id = symbol?
  generalize second.symbol? id = other?
  intro hplace
  cases hplace with
  | some hsame => exact hview _ _ hsame
  | none => rfl

/-- Parents are the same. -/
theorem parent?_eq (h : first.Lookalike second) : second.parent? = first.parent? := by
  funext id
  exact h.view_eq (·.bind (·.parent)) (fun _ _ hsame => hsame.parent.symm) id

/-- The same symbols are hidden. -/
theorem isHidden_eq (h : first.Lookalike second) : second.isHidden = first.isHidden := by
  funext id
  exact h.view_eq (·.any Symbol.hidden) (fun _ _ hsame => hsame.hidden.symm) id

/-- Aliases are the same. -/
theorem hasAlias_eq (h : first.Lookalike second) : second.hasAlias = first.hasAlias := by
  funext id text
  refine h.view_eq (·.any fun symbol => decide (text ∈ symbol.aliases)) (fun _ _ hsame => ?_) id
  exact decide_eq_decide.mpr (hsame.aliases text).symm

/-- The same options are inherited. -/
theorem isInherited_eq (h : first.Lookalike second) : second.isInherited = first.isInherited := by
  funext id
  refine h.view_eq (fun symbol => (symbol.bind Symbol.option?).any (·.inherited))
    (fun symbol other hsame => ?_) id
  have hinherited := congrArg (fun flag => flag.any fun inherited => inherited) hsame.inherited
  rw [Option.any_map, Option.any_map] at hinherited
  exact hinherited.symm

/-- Every list of children is the same. -/
theorem listed_eq (h : first.Lookalike second) (kind : Kind) (id : SymbolId) :
    second.listed kind id = first.listed kind id :=
  h.view_eq (·.elim [] (Symbol.listed kind)) (fun _ _ hsame => (hsame.listed kind).symm) id

/-- Subcommands are the same. -/
theorem commands_eq (h : first.Lookalike second) (id : SymbolId) :
    second.commands id = first.commands id := by
  rw [← (CommandTree.listed_eq second id).1, h.listed_eq, (CommandTree.listed_eq first id).1]

/-- Declared options are the same. -/
theorem options_eq (h : first.Lookalike second) : second.options = first.options := by
  funext id
  rw [← (CommandTree.listed_eq second id).2.1, h.listed_eq, (CommandTree.listed_eq first id).2.1]

/-- Positional arguments are the same. -/
theorem arguments_eq (h : first.Lookalike second) (id : SymbolId) :
    second.arguments id = first.arguments id := by
  refine h.view_eq (fun symbol => (symbol.bind Symbol.command?).elim [] (·.arguments))
    (fun symbol other hsame => ?_) id
  have hkind := hsame.kind
  have hlisted := hsame.listed .argument
  cases hsymbol : symbol.role <;> cases hother : other.role <;>
    simp_all [Symbol.command?, Symbol.listed, Role.kind]

/-- Ancestors are the same. -/
theorem ancestors_eq (h : first.Lookalike second) (id : SymbolId) :
    second.ancestors id = first.ancestors id := ancestors_congr h.parent?_eq id

/-- The options that can be given at a command are the same. -/
theorem declaredOptions_eq (h : first.Lookalike second) (command : SymbolId) :
    second.declaredOptions command = first.declaredOptions command := by
  rw [declaredOptions, declaredOptions, h.ancestors_eq, h.options_eq, h.isInherited_eq]

/-- The scopes at a command look alike. -/
theorem alike_scope (h : first.Lookalike second) (command : SymbolId) :
    (first.scope command).Alike (second.scope command) := by
  apply Scope.alike_of_resolve (first.keyed_scope command) (second.keyed_scope command)
  · exact order_scope_congr (h.declaredOptions_eq command)
  · intro text
    rw [resolve_scope, resolve_scope, nearest?, nearest?, ← reverse_declaredOptions,
      ← reverse_declaredOptions, h.declaredOptions_eq, h.hasAlias_eq]

end Lookalike

end CommandTree

/-! ## Declaring what is hidden in another way -/

namespace CommandTree

variable {first second : CommandTree β}

/-- Commands declared with the same texts and equally hidden are at the same place. -/
theorem samePlace_command {decl other : CommandDecl β} (hname : other.name = decl.name)
    (haliases : other.aliases = decl.aliases) (hhidden : other.hidden = decl.hidden)
    (parent : Option SymbolId) : (decl.symbol parent).SamePlace (other.symbol parent) where
  kind := rfl
  parent := rfl
  listed kind := by cases kind <;> rfl
  aliases text := by rw [CommandDecl.symbol, CommandDecl.symbol, hname, haliases]
  hidden := hhidden.symm
  inherited := rfl

/-- Options declared with the same aliases and equally hidden are at the same place. -/
theorem samePlace_option {decl other : OptionDecl β} (haliases : other.aliases = decl.aliases)
    (hhidden : other.hidden = decl.hidden) (inherited : Bool) (argument parent : SymbolId) :
    (decl.symbol inherited argument parent).SamePlace (other.symbol inherited argument parent) where
  kind := rfl
  parent := rfl
  listed kind := by cases kind <;> rfl
  aliases text := by rw [OptionDecl.symbol, OptionDecl.symbol, haliases]
  hidden := hhidden.symm
  inherited := rfl

/-- Arguments that are equally hidden are at the same place. -/
theorem samePlace_argument {decl other : ArgumentDecl} (hhidden : other.hidden = decl.hidden)
    (forOption : Bool) (parent : SymbolId) :
    (decl.symbol forOption parent : Symbol β).SamePlace (other.symbol forOption parent) where
  kind := rfl
  parent := rfl
  listed kind := by cases kind <;> rfl
  aliases text := Iff.rfl
  hidden := hhidden.symm
  inherited := rfl

/-- Trees look alike if every symbol is the same or is concealed and at the same place. -/
theorem Lookalike.of_forall (h : ∀ id, second.symbol? id = first.symbol? id ∨
    first.Concealed id ∧ Option.Rel Symbol.SamePlace (first.symbol? id) (second.symbol? id)) :
    first.Lookalike second where
  place id := by
    rcases h id with hsame | ⟨-, hplace⟩
    · rw [hsame]
      cases first.symbol? id with
      | none => exact .none
      | some symbol => exact .some ⟨⟨rfl, rfl, fun _ => rfl⟩, fun _ => Iff.rfl, rfl, rfl⟩
    · exact hplace
  symbol? id hopen := (h id).resolve_right fun hconcealed => hopen hconcealed.1

/-- What a program hides: an option and its argument, a positional argument, and what it says of a
subcommand. -/
structure Secrets where
  key : OptionDecl Unit
  digits : ArgumentDecl
  extra : ArgumentDecl
  note : Option String

/-- A program with secrets. Its hidden option takes an alias from another one. -/
def vault (secrets : Secrets) : CommandTree Unit :=
  (new { name := "app" }).editAll
    [.addOption root { aliases := ["--keep", "-k"] } true,
      .addOption root
        { secrets.key with
          aliases := ["-k"]
          hidden := true
          argument := some { secrets.digits with hidden := false } }
        true,
      .addCommand root { name := "run" },
      .addArgument 5 { secrets.extra with hidden := true },
      .addCommand 5 { name := "open", description := secrets.note, hidden := true }]

/-- Vaults look alike, whatever their secrets are. -/
theorem lookalike_vault (secrets others : Secrets) : (vault secrets).Lookalike (vault others) := by
  have hkey : ∀ secrets : Secrets, (vault secrets).symbol? 3 = some
      (OptionDecl.symbol { secrets.key with aliases := ["-k"], hidden := true } true 4 root) := by
    intro secrets
    cbv
  have hdigits : ∀ secrets : Secrets, (vault secrets).symbol? 4 =
      some (ArgumentDecl.symbol { secrets.digits with hidden := false } true 3) := by
    intro secrets
    cbv
  have hextra : ∀ secrets : Secrets, (vault secrets).symbol? 6 =
      some (ArgumentDecl.symbol { secrets.extra with hidden := true } false 5) := by
    intro secrets
    cbv
  have hnote : ∀ secrets : Secrets, (vault secrets).symbol? 7 = some (CommandDecl.symbol
      { name := "open", description := secrets.note, hidden := true } (some 5)) := by
    intro secrets
    cbv
  have hsize : ∀ secrets : Secrets, (vault secrets).size = 8 := by
    intro secrets
    cbv
  apply Lookalike.of_forall
  intro id
  by_cases hid : id < 8
  · interval_cases id
    · exact .inl (by cbv)
    · exact .inl (by cbv)
    · exact .inl (by cbv)
    · refine .inr ⟨.option (by cbv) (by cbv), ?_⟩
      rw [hkey, hkey]
      apply Option.Rel.some
      apply samePlace_option
      · rfl
      · rfl
    · have hslot : ((vault secrets).option? 3).map (·.argument) = some 4 := by cbv
      refine .inr ⟨.slot hslot (by cbv), ?_⟩
      rw [hdigits, hdigits]
      apply Option.Rel.some
      apply samePlace_argument
      rfl
    · exact .inl (by cbv)
    · have harguments : (vault secrets).arguments 5 = [6] := by cbv
      have hextraListed : 6 ∈ (vault secrets).arguments 5 := by
        rw [harguments]
        exact List.mem_singleton_self 6
      refine .inr ⟨.argument hextraListed (by cbv), ?_⟩
      rw [hextra, hextra]
      apply Option.Rel.some
      apply samePlace_argument
      rfl
    · refine .inr ⟨.command (by cbv) (by cbv), ?_⟩
      rw [hnote, hnote]
      apply Option.Rel.some
      apply samePlace_command
      · rfl
      · rfl
      · rfl
  · left
    rw [symbol?, symbol?, Array.getElem?_eq_none, Array.getElem?_eq_none]
    · exact (hsize secrets).trans_le (Nat.le_of_not_lt hid)
    · exact (hsize others).trans_le (Nat.le_of_not_lt hid)

/-- A vault with a hidden flag and a hidden text. -/
def plainVault : CommandTree Unit :=
  vault ⟨{ aliases := [] }, { name := "key", type := .bool }, { name := "word" }, none⟩

/-- A vault with a hidden option that has to be given, under another name and with another argument,
and with a hidden number that has a default. -/
def codedVault : CommandTree Unit :=
  vault
    ⟨{ aliases := [], name := some "code", description := some "Opens it.", required := true },
      { name := "digits", type := .uint, arity := some ⟨0, 2⟩, default := some fun _ => .uint 7 },
      { name := "number", type := .uint, default := some fun _ => .uint 0 }, some "Opens it."⟩

end CommandTree

/-! ## Symbols that are the same -/

section Same

variable {first second : CommandTree β} {style other : HelpStyle} {id option argument : SymbolId}

namespace CommandTree

variable (hsame : second.symbol? id = first.symbol? id)

include hsame in
/-- A symbol that is the same has the same name. -/
theorem name_congr : second.name id = first.name id := by rw [name, name, hsame]

include hsame in
/-- A symbol that is the same has the same description. -/
theorem description?_congr : second.description? id = first.description? id := by
  rw [description?, description?, hsame]

include hsame in
/-- A symbol that is the same is the same command, if any. -/
theorem command?_congr : second.command? id = first.command? id := by
  rw [command?, command?, hsame]

include hsame in
/-- A symbol that is the same is the same option, if any. -/
theorem option?_congr : second.option? id = first.option? id := by rw [option?, option?, hsame]

include hsame in
/-- A symbol that is the same is the same argument, if any. -/
theorem argument?_congr : second.argument? id = first.argument? id := by
  rw [argument?, argument?, hsame]

include hsame in
/-- A symbol that is the same has the same default. -/
theorem default?_congr : second.default? id = first.default? id := by
  rw [default?, default?, argument?_congr hsame]

end CommandTree

namespace HelpStyle

/-- A style with the overrides of one symbol replaced has the same ones for all others. -/
theorem overrideOf_customize_of_ne {symbol : SymbolId} (hne : id ≠ symbol) (texts : RowOverride) :
    (style.customize symbol texts).overrideOf id = style.overrideOf id := by
  rw [overrideOf, overrideOf, customize, List.lookup_cons, beq_false_of_ne hne]

/-- An argument that is the same is written alike in a usage line. -/
theorem argumentUsage_congr (hsame : second.symbol? argument = first.symbol? argument)
    (hargument : (first.argument? argument).isSome) :
    argumentUsage second argument = argumentUsage first argument := by
  obtain ⟨node, hnode⟩ := Option.isSome_iff_exists.mp hargument
  rw [CommandTree.argumentUsage_eq hnode,
    CommandTree.argumentUsage_eq ((CommandTree.argument?_congr hsame).trans hnode),
    CommandTree.name_congr hsame]

/-- A symbol that is the same is described in the same way. -/
theorem describe_congr (hsame : second.symbol? id = first.symbol? id) (slot : Option ArgumentNode) :
    describe second id slot = describe first id slot := by
  unfold describe
  rw [CommandTree.description?_congr hsame]

/-- Where overrides and default are the same, a row is finished in the same way. -/
theorem finishRow_congr (hstyle : other.overrideOf id = style.overrideOf id)
    {slot : Option SymbolId}
    (hslot : ∀ argument ∈ slot, second.symbol? argument = first.symbol? argument) (row : HelpRow) :
    other.finishRow second id row slot = style.finishRow first id row slot := by
  unfold finishRow
  dsimp only
  rw [hstyle]
  cases (style.overrideOf id).default with
  | some text => rfl
  | none =>
    cases slot with
    | none => rfl
    | some argument => simp only [CommandTree.default?_congr (hslot argument rfl)]

/-- The row of an argument is the same if the argument is. -/
theorem argumentRow_congr (hstyle : other.overrideOf argument = style.overrideOf argument)
    (hsame : second.symbol? argument = first.symbol? argument)
    (hargument : (first.argument? argument).isSome) :
    other.argumentRow second argument = style.argumentRow first argument := by
  have hslot : ∀ id ∈ some argument, second.symbol? id = first.symbol? id := by
    rintro id ⟨⟩
    exact hsame
  rw [argumentRow, argumentRow, finishRow_congr hstyle hslot, argumentUsage_congr hsame hargument,
    describe_congr hsame, CommandTree.argument?_congr hsame]

/-- The row of an option is the same if the option and its argument are. -/
theorem optionRow_congr {node : OptionNode β} (hnode : first.option? option = some node)
    (hstyle : other.overrideOf option = style.overrideOf option)
    (hsame : second.symbol? option = first.symbol? option)
    (hargument : second.symbol? node.argument = first.symbol? node.argument) (scope : Scope) :
    other.optionRow second scope option = style.optionRow first scope option := by
  have hother := CommandTree.option?_congr hsame
  have hslot : second.slot? option = first.slot? option := by
    rw [CommandTree.slot?, CommandTree.slot?, hother, hnode, Option.bind_some, Option.bind_some,
      CommandTree.argument?_congr hargument]
  have hvalue : valueUsage second option = valueUsage first option := by
    unfold valueUsage
    rw [hslot, hother, hnode]
    cases first.slot? option with
    | none => rfl
    | some slot => simp only [CommandTree.name_congr hargument]
  have hdefault : ∀ id ∈ (first.option? option).map (·.argument),
      second.symbol? id = first.symbol? id := by
    rw [hnode]
    rintro id ⟨⟩
    exact hargument
  rw [optionRow, optionRow, hother, finishRow_congr hstyle hdefault, hvalue, describe_congr hsame,
    hslot, CommandTree.isRequired, CommandTree.isRequired, hother]

/-- What is made one after another is the same if it is made of the same in the same way. -/
theorem mapM_congr {A B : Type} {make others : A → Evaluating B} {values : List A}
    (h : ∀ value ∈ values, others value = make value) : values.mapM others = values.mapM make := by
  induction values with
  | nil => rfl
  | cons value values ih =>
    rw [List.forall_mem_cons] at h
    rw [List.mapM_cons, List.mapM_cons, h.1, ih h.2]

end HelpStyle

end Same

/-! ## The same help -/

namespace HelpStyle

variable {first second : CommandTree β} {style other : HelpStyle} {command argument : SymbolId}
  (h : first.Lookalike second) (hfirst : first.WellFormed)
  (hstyle : ∀ id, (first.symbol? id).isSome → ¬first.Concealed id →
    other.overrideOf id = style.overrideOf id)

include h in
/-- Of the same symbols the same ones are visible. -/
theorem visible_congr (symbols : List SymbolId) : visible second symbols = visible first symbols := by
  rw [visible, visible, h.isHidden_eq]

include h hfirst in
/-- The visible arguments of a command are written alike in a usage line. -/
theorem map_argumentUsage_congr (command : SymbolId) :
    (visible second (second.arguments command)).map (argumentUsage second) =
      (visible first (first.arguments command)).map (argumentUsage first) := by
  rw [visible_congr h, h.arguments_eq]
  refine List.map_congr_left fun argument hvisible => ?_
  obtain ⟨hlisted, hhidden⟩ := List.mem_filter.mp hvisible
  have hopen := hfirst.not_concealed_argument hlisted (by simpa using hhidden)
  exact argumentUsage_congr (h.symbol? argument hopen) (hfirst.of_mem_arguments hlisted).1

include h hfirst hstyle in
/-- The rows of arguments are the same. -/
theorem argumentRows_congr (command : SymbolId) :
    other.argumentRows second command = style.argumentRows first command := by
  rw [argumentRows, argumentRows, visible_congr h, h.arguments_eq]
  apply mapM_congr
  intro argument hvisible
  obtain ⟨hlisted, hhidden⟩ := List.mem_filter.mp hvisible
  have hargument := (hfirst.of_mem_arguments hlisted).1
  have hopen := hfirst.not_concealed_argument hlisted (by simpa using hhidden)
  have hid : (first.symbol? argument).isSome := Option.isSome_of_isSome_bind hargument
  exact argumentRow_congr (hstyle argument hid hopen) (h.symbol? argument hopen) hargument

include h hfirst hstyle in
/-- The rows of options are the same. -/
theorem optionRows_congr_of_lookalike (command : SymbolId) :
    other.optionRows second (second.scope command) =
      style.optionRows first (first.scope command) := by
  rw [optionRows_congr (h.alike_scope command), optionRows, optionRows, visible_congr h]
  apply mapM_congr
  intro option hvisible
  obtain ⟨hlisted, hhidden⟩ := List.mem_filter.mp hvisible
  have hshown : first.isHidden option = false := by simpa using hhidden
  have hoption := hfirst.isSome_of_mem_scope_options hlisted
  have hopen := hfirst.not_concealed_option hoption hshown
  have hid : (first.symbol? option).isSome := Option.isSome_of_isSome_bind hoption
  obtain ⟨node, hnode⟩ := Option.isSome_iff_exists.mp hoption
  exact optionRow_congr hnode (hstyle option hid hopen) (h.symbol? option hopen)
    (h.symbol? node.argument (hfirst.not_concealed_slot hnode hshown)) _

include h hfirst hstyle in
/-- The rows of subcommands are the same. -/
theorem commandRows_congr (command : SymbolId) :
    other.commandRows second command = style.commandRows first command := by
  rw [commandRows, commandRows, visible_congr h, h.commands_eq]
  apply mapM_congr
  intro subcommand hvisible
  obtain ⟨hlisted, hhidden⟩ := List.mem_filter.mp hvisible
  have hcommand := (hfirst.mem_commands.mp hlisted).1
  have hopen := hfirst.not_concealed_command hcommand (by simpa using hhidden)
  have hid : (first.symbol? subcommand).isSome := Option.isSome_of_isSome_bind hcommand
  have hsame := h.symbol? subcommand hopen
  rw [commandRow, commandRow, finishRow_congr (hstyle subcommand hid hopen) (by simp),
    map_argumentUsage_congr h hfirst, CommandTree.name_congr hsame,
    CommandTree.description?_congr hsame]

include h hfirst in
/-- The usage line of a command is the same if the command and its ancestors are. -/
theorem usage_congr (hcommand : (first.command? command).isSome)
    (hpath : ∀ id ∈ command :: first.ancestors command, second.symbol? id = first.symbol? id) :
    usage second command = usage first command := by
  have hother : (second.command? command).isSome := by
    rwa [CommandTree.command?_congr (hpath command List.mem_cons_self)]
  have hnames : (command :: first.ancestors command).reverse.map second.name =
      (command :: first.ancestors command).reverse.map first.name := by
    refine List.map_congr_left fun id hid => ?_
    exact CommandTree.name_congr (hpath id (List.mem_reverse.mp hid))
  rw [usage, usage, usageIn, usageIn, usageParts_eq hother, usageParts_eq hcommand, h.ancestors_eq,
    hnames, map_argumentUsage_congr h hfirst, (h.alike_scope command).options, visible_congr h,
    visible_congr h, h.commands_eq]

include h hfirst hstyle in
/-- The page of a command is the same if the command and its ancestors are. -/
theorem page_congr (hcommand : (first.command? command).isSome)
    (hpath : ∀ id ∈ command :: first.ancestors command, second.symbol? id = first.symbol? id) :
    other.page second command = style.page first command := by
  rw [page, page, argumentRows_congr h hfirst hstyle, optionRows_congr_of_lookalike h hfirst hstyle,
    commandRows_congr h hfirst hstyle, usage_congr h hfirst hcommand hpath,
    CommandTree.description?_congr (hpath command List.mem_cons_self)]

end HelpStyle

namespace CommandTree

variable {first second : CommandTree β} {command : SymbolId}

example : HelpStyle.listedAliases (plainVault.scope 5) 1 = ["--keep"] := by decide +kernel

end CommandTree

end CommandLine
