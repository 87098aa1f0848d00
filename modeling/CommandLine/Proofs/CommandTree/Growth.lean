import CommandLine.Proofs.Reading.Agreement
import CommandLine.Proofs.Scope.NearestFirst
import CommandLine.Suggestion
import Mathlib.Data.List.Find

/-!
# Trees that grow

A subcommand, an option or an argument that is added to a command changes one list of the command
and nothing else among the symbols that were there: every other symbol stays as it is, and the
command keeps its name, its aliases and its action. So whatever can be asked about an old symbol,
except for what the command lists, has the answer it had before.

What can be given at some other command is the same as well, unless an inherited option was added
to one of its ancestors.
-/

namespace CommandLine

variable {β : Type}

/-- The edits that add something to a command, and whether descendants of the command get it too. -/
inductive Edit.Adds (parent : SymbolId) : Edit β → Bool → Prop where
  | command (decl : CommandDecl β) : Adds parent (.addCommand parent decl) false
  | option (decl : OptionDecl β) (inherited : Bool) :
      Adds parent (.addOption parent decl inherited) inherited
  | argument (decl : ArgumentDecl) : Adds parent (.addArgument parent decl) false

namespace CommandTree

variable {tree next : CommandTree β} {id parent command : SymbolId} {inherited : Bool}

/-- Whatever is something of a kind is a symbol of its tree. -/
theorem lt_size_of_isSome_bind {A : Type} {view : Symbol β → Option A}
    (h : ((tree.symbol? id).bind view).isSome) : id < tree.size := by
  obtain ⟨node, hnode⟩ := Option.isSome_iff_exists.mp h
  obtain ⟨symbol, hsymbol, -⟩ := Option.bind_eq_some_iff.mp hnode
  exact lt_size_of_symbol? hsymbol

/-! ## Symbols that look the same -/

/-- Two trees that say the same of a symbol, apart from what it lists as a command. -/
structure AlikeAt (tree next : CommandTree β) (id : SymbolId) : Prop where
  name : next.name id = tree.name id
  displayName : next.displayName id = tree.displayName id
  aliases : next.aliases id = tree.aliases id
  isHidden : next.isHidden id = tree.isHidden id
  parent? : next.parent? id = tree.parent? id
  option? : next.option? id = tree.option? id
  argument? : next.argument? id = tree.argument? id
  action? : next.action? id = tree.action? id

/-- A symbol that stays as it is looks the same. -/
theorem alikeAt_of_eq (h : next.symbol? id = tree.symbol? id) : tree.AlikeAt next id := by
  constructor <;>
    simp only [CommandTree.name, CommandTree.displayName, CommandTree.aliases,
      CommandTree.isHidden, CommandTree.parent?, CommandTree.option?, CommandTree.argument?,
      CommandTree.action?, h]

/-- A command with other lists looks the same. -/
theorem alikeAt_of_onCommand {change : CommandNode β → CommandNode β}
    (h : next.symbol? id = (tree.symbol? id).map (Symbol.onCommand change))
    (haction : ∀ node, (change node).action = node.action) : tree.AlikeAt next id := by
  cases hsymbol : tree.symbol? id with
  | none => exact alikeAt_of_eq (by rw [h, hsymbol]; rfl)
  | some symbol =>
    rw [hsymbol, Option.map_some] at h
    have hname : (symbol.onCommand change).name = symbol.name := by
      cases hrole : symbol.role <;> simp [Symbol.onCommand, Symbol.name, hrole]
    constructor <;> cases hrole : symbol.role <;>
      simp_all [CommandTree.name, CommandTree.displayName, CommandTree.aliases,
        CommandTree.isHidden, CommandTree.parent?, CommandTree.option?, CommandTree.argument?,
        CommandTree.action?, Symbol.onCommand, Symbol.displayName, Symbol.option?,
        Symbol.argument?, Symbol.action?]

namespace AlikeAt

/-- A symbol that looks the same answers to the same texts. -/
theorem hasAlias (h : tree.AlikeAt next id) (text : String) :
    next.hasAlias id text = tree.hasAlias id text := by
  rw [hasAlias_eq, hasAlias_eq, h.aliases]

/-- An option that looks the same is inherited or not as before. -/
theorem isInherited (h : tree.AlikeAt next id) : next.isInherited id = tree.isInherited id := by
  rw [CommandTree.isInherited, CommandTree.isInherited, h.option?]

/-- An option that looks the same is required or not as before. -/
theorem isRequired (h : tree.AlikeAt next id) : next.isRequired id = tree.isRequired id := by
  rw [CommandTree.isRequired, CommandTree.isRequired, h.option?]

end AlikeAt

/-! ## Growth -/

/-- A tree that has grown out of another one by new symbols below one of its commands. -/
structure Grown (tree next : CommandTree β) (parent : SymbolId) (inherited : Bool) : Prop where
  alikeAt : ∀ id < tree.size, tree.AlikeAt next id
  symbol?_of_ne : ∀ id < tree.size, id ≠ parent → next.symbol? id = tree.symbol? id
  /-- What the command passes on has not changed, unless it was an inherited option. -/
  passedOn : inherited = false →
    (next.options parent).filter next.isInherited = (tree.options parent).filter tree.isInherited

/-- A pushed symbol leaves the others in their places. -/
theorem symbol?_push_of_lt {symbol : Symbol β} (hid : id < tree.size) :
    (tree.push symbol).symbol? id = tree.symbol? id := by
  rw [symbol?_push, if_neg (Nat.ne_of_lt hid)]

/-- The options of a command whose lists were changed. -/
theorem options_onCommand {change : CommandNode β → CommandNode β} {node : CommandNode β}
    (h : next.symbol? id = (tree.symbol? id).map (Symbol.onCommand change))
    (hnode : tree.command? id = some node) : next.options id = (change node).options := by
  obtain ⟨symbol, hsymbol, hcommand⟩ := Option.bind_eq_some_iff.mp hnode
  rw [hsymbol, Option.map_some] at h
  cases hrole : symbol.role <;>
    simp_all [CommandTree.options, CommandTree.command?, Symbol.command?, Symbol.onCommand]

/-- A command whose lists were changed in a grown array of symbols makes a grown tree. -/
theorem grown_of_onCommand (htree : tree.WellFormed) (change : CommandNode β → CommandNode β)
    {node : CommandNode β} (hnode : tree.command? parent = some node)
    (hsymbol : ∀ id < tree.size, next.symbol? id =
      if id = parent then (tree.symbol? id).map (Symbol.onCommand change) else tree.symbol? id)
    (haction : ∀ node, (change node).action = node.action)
    (hoptions : inherited = false → ∃ added, (change node).options = node.options ++ added ∧
      ∀ option ∈ added, next.isInherited option = false) :
    tree.Grown next parent inherited := by
  have hlt : parent < tree.size := lt_size_of_command? hnode
  have hparent : next.symbol? parent = (tree.symbol? parent).map (Symbol.onCommand change) := by
    rw [hsymbol parent hlt, if_pos rfl]
  have halike : ∀ id < tree.size, tree.AlikeAt next id := by
    intro id hid
    by_cases hne : id = parent
    · subst id
      exact alikeAt_of_onCommand hparent haction
    · exact alikeAt_of_eq (by rw [hsymbol id hid, if_neg hne])
  refine ⟨halike, fun id hid hne => by rw [hsymbol id hid, if_neg hne], fun hinherited => ?_⟩
  obtain ⟨added, hadded, hnone⟩ := hoptions hinherited
  have hold : tree.options parent = node.options := by rw [CommandTree.options, hnode]; rfl
  have hnew : added.filter next.isInherited = [] := by
    rw [List.filter_eq_nil_iff]
    exact fun option hoption => by simp [hnone option hoption]
  rw [options_onCommand hparent hnode, hadded, List.filter_append, hnew, List.append_nil, ← hold]
  refine List.filter_congr fun option hoption => (halike option ?_).isInherited
  exact lt_size_of_isSome_bind (htree.mem_options.mp hoption).1

/-- A new option of a grown tree is inherited as its declaration says. -/
theorem isInherited_addOption {decl : OptionDecl β} {slot : Symbol β} (hlt : parent < tree.size)
    (change : CommandNode β → CommandNode β) :
    (((tree.push (decl.symbol inherited (tree.size + 1) parent)).push slot).modify parent
      (Symbol.onCommand change)).isInherited tree.size = inherited := by
  rw [isInherited, option?, symbol?_modify, if_neg (Nat.ne_of_gt hlt), symbol?_push_of_lt
    (by rw [size_push]; exact Nat.lt_succ_self _), symbol?_push, if_pos rfl]
  rfl

/-- Adding something to a command makes the tree grow. -/
theorem WellFormed.grown (h : tree.WellFormed) {edit : Edit β} {reply : EditReply}
    (hadds : edit.Adds parent inherited) (hedit : Edited tree edit reply next) :
    tree.Grown next parent inherited := by
  cases hadds with
  | command decl =>
    cases hedit with
    | addCommand hparent hchecked =>
      refine grown_of_onCommand h (CommandNode.addCommand tree.size) hparent ?_ (fun _ => rfl)
        fun _ => ⟨[], (List.append_nil _).symm, by simp⟩
      intro id hid
      rw [symbol?_modify, symbol?_push_of_lt hid]
  | option decl =>
    cases hedit with
    | addOption hparent hnonempty hchecked =>
      refine grown_of_onCommand h (CommandNode.addOption tree.size) hparent ?_ (fun _ => rfl)
        fun hinherited => ⟨[tree.size], rfl, ?_⟩
      · intro id hid
        have hpushed : id < (tree.push (decl.symbol inherited (tree.size + 1) parent)).size := by
          rw [size_push]
          exact Nat.lt_succ_of_lt hid
        rw [symbol?_modify, symbol?_push_of_lt hpushed, symbol?_push_of_lt hid]
      · intro option hoption
        rw [List.mem_singleton.mp hoption, isInherited_addOption (lt_size_of_command? hparent),
          hinherited]
  | argument decl =>
    cases hedit with
    | addArgument hparent =>
      refine grown_of_onCommand h (CommandNode.addArgument tree.size) hparent ?_ (fun _ => rfl)
        fun _ => ⟨[], (List.append_nil _).symm, by simp⟩
      intro id hid
      rw [symbol?_modify, symbol?_push_of_lt hid]

/-! ## What can be given in a grown tree -/

/-- A command that something new elsewhere does not reach: it is not the command that grew, nor one
that inherits from it what was added. -/
structure OutOfReach (tree : CommandTree β) (parent : SymbolId) (inherited : Bool)
    (command : SymbolId) : Prop where
  ne : command ≠ parent
  notMem : inherited = true → parent ∉ tree.ancestors command

/-- Being out of reach is decided by looking at the way up from the command. -/
instance (tree : CommandTree β) (parent : SymbolId) (inherited : Bool) (command : SymbolId) :
    Decidable (tree.OutOfReach parent inherited command) :=
  decidable_of_iff (command ≠ parent ∧ (inherited = true → parent ∉ tree.ancestors command))
    ⟨fun h => ⟨h.1, h.2⟩, fun h => ⟨h.ne, h.notMem⟩⟩

/-- A declared option is a symbol of its tree. -/
theorem WellFormed.lt_size_of_mem_declaredOptions (h : tree.WellFormed)
    (hmem : id ∈ tree.declaredOptions command) : id < tree.size :=
  lt_size_of_isSome_bind (h.isSome_of_mem_declaredOptions hmem)

/-- A subcommand is a symbol of its tree. -/
theorem WellFormed.lt_size_of_mem_commands (h : tree.WellFormed)
    (hmem : id ∈ tree.commands command) : id < tree.size :=
  lt_size_of_isSome_bind (h.mem_commands.mp hmem).1

/-- A positional argument is a symbol of its tree. -/
theorem WellFormed.lt_size_of_mem_arguments (h : tree.WellFormed)
    (hmem : id ∈ tree.arguments command) : id < tree.size :=
  lt_size_of_isSome_bind (h.of_mem_arguments hmem).1

namespace Grown

variable {config : Config}

/-- The way up from an old symbol is what it was. -/
theorem ancestors_eq (h : tree.Grown next parent inherited) (htree : tree.WellFormed)
    (hid : id < tree.size) : next.ancestors id = tree.ancestors id := by
  induction id using Nat.strongRecOn with
  | ind id ih =>
    have hsame := (h.alikeAt id hid).parent?
    cases hparent : tree.parent? id with
    | none =>
      rw [hparent] at hsame
      rw [ancestors_of_parent?_eq_none hparent, ancestors_of_parent?_eq_none hsame]
    | some above =>
      rw [hparent] at hsame
      have hlt : above < id := htree.parent_lt hparent
      rw [ancestors_of_parent? hparent hlt, ancestors_of_parent? hsame hlt,
        ih above hlt (Nat.lt_trans hlt hid)]

/-- A command that did not grow has what it had. -/
theorem command?_eq (h : tree.Grown next parent inherited) (hid : id < tree.size)
    (hne : id ≠ parent) : next.command? id = tree.command? id := by
  rw [CommandTree.command?, CommandTree.command?, h.symbol?_of_ne id hid hne]

/-- The argument of an old option is what it was. -/
theorem slot?_eq (h : tree.Grown next parent inherited) (htree : tree.WellFormed)
    (hid : id < tree.size) : next.slot? id = tree.slot? id := by
  rw [CommandTree.slot?, CommandTree.slot?, (h.alikeAt id hid).option?]
  cases hoption : tree.option? id with
  | none => rfl
  | some node =>
    have hslot := lt_size_of_isSome_bind (htree.of_option? hoption).1
    exact (h.alikeAt _ hslot).argument?

/-- The options that a command out of reach passes on to itself and to others are what they were. -/
theorem declaredOptions_eq (h : tree.Grown next parent inherited) (htree : tree.WellFormed)
    (hcommand : command < tree.size) (hout : tree.OutOfReach parent inherited command) :
    next.declaredOptions command = tree.declaredOptions command := by
  have hown : next.options command = tree.options command := by
    rw [CommandTree.options, CommandTree.options, h.command?_eq hcommand hout.ne]
  have hpassed : ∀ ancestor ∈ (tree.ancestors command).reverse,
      (next.options ancestor).filter next.isInherited =
        (tree.options ancestor).filter tree.isInherited := by
    intro ancestor hancestor
    have hmem : ancestor ∈ tree.ancestors command := List.mem_reverse.mp hancestor
    have hid := Nat.lt_trans (htree.lt_of_mem_ancestors hmem) hcommand
    by_cases hne : ancestor = parent
    · -- What was added to an ancestor is not inherited, or the command would be in reach.
      subst ancestor
      refine h.passedOn ?_
      cases hinherited : inherited with
      | false => rfl
      | true => exact absurd hmem (hout.notMem hinherited)
    · rw [CommandTree.options, CommandTree.options, h.command?_eq hid hne]
      refine List.filter_congr fun option hoption => (h.alikeAt option ?_).isInherited
      exact lt_size_of_isSome_bind (htree.mem_options.mp hoption).1
  rw [declaredOptions, declaredOptions, hown, h.ancestors_eq htree hcommand,
    List.flatMap_congr hpassed]

/-- The scope of a command out of reach is what it was. -/
theorem scope_eq (h : tree.Grown next parent inherited) (htree : tree.WellFormed)
    (hcommand : command < tree.size) (hout : tree.OutOfReach parent inherited command) :
    next.scope command = tree.scope command := by
  rw [scope, scope, h.declaredOptions_eq htree hcommand hout]
  refine List.foldl_ext _ _ _ fun scope option hoption => ?_
  rw [(h.alikeAt option (htree.lt_size_of_mem_declaredOptions hoption)).aliases]

/-- The subcommand that a text names at a command that did not grow is what it was. -/
theorem subcommand?_eq (h : tree.Grown next parent inherited) (htree : tree.WellFormed)
    (hcommand : command < tree.size) (hne : command ≠ parent) (text : String) :
    next.subcommand? command text = tree.subcommand? command text := by
  have hcommands : next.commands command = tree.commands command := by
    rw [CommandTree.commands, CommandTree.commands, h.command?_eq hcommand hne]
  rw [subcommand?, subcommand?, hcommands]
  refine List.find?_congr fun sub hsub => ?_
  exact (h.alikeAt sub (htree.lt_size_of_mem_commands hsub)).hasAlias text

/-- The texts that would be recognized at a command out of reach are what they were. -/
theorem candidates_eq (h : tree.Grown next parent inherited) (htree : tree.WellFormed)
    (hcommand : command < tree.size) (hne : command ≠ parent) :
    next.candidates (tree.scope command) command =
      tree.candidates (tree.scope command) command := by
  have hcommands : next.commands command = tree.commands command := by
    rw [CommandTree.commands, CommandTree.commands, h.command?_eq hcommand hne]
  have hsub : ∀ sub ∈ tree.commands command, tree.AlikeAt next sub :=
    fun sub hmem => h.alikeAt sub (htree.lt_size_of_mem_commands hmem)
  have hentry : ∀ entry ∈ (tree.scope command).entries, tree.AlikeAt next entry.2 := by
    intro entry hentry
    have hdeclared := ((tree.scope_spec command).1 entry hentry).1
    exact h.alikeAt entry.2 (htree.lt_size_of_mem_declaredOptions hdeclared)
  have hvisible : (tree.commands command).filter (!next.isHidden ·) =
      (tree.commands command).filter (!tree.isHidden ·) :=
    List.filter_congr fun sub hmem => by rw [(hsub sub hmem).isHidden]
  rw [candidates, candidates, hcommands, hvisible]
  congr 1
  · exact List.flatMap_congr fun sub hmem => (hsub sub (List.mem_of_mem_filter hmem)).aliases
  · refine congrArg _ (List.filter_congr fun entry hmem => ?_)
    rw [(hentry entry hmem).isHidden]

/-- Tokens are read at a command out of reach as they were. -/
theorem agreeAt (h : tree.Grown next parent inherited) (htree : tree.WellFormed)
    (hcommand : command < tree.size) (hout : tree.OutOfReach parent inherited command) :
    (Setting.of tree config).AgreeAt (Setting.of next config) command := by
  have hcapacity : ∀ option < tree.size,
      (Setting.of next config).capacity option = (Setting.of tree config).capacity option := by
    intro option hoption
    simp only [Setting.capacity, Setting.of, (h.alikeAt option hoption).option?,
      h.slot?_eq htree hoption]
  have hresolved : ∀ text option, (tree.scope command).resolve text = some option →
      option < tree.size :=
    fun text option hresolve => lt_size_of_isSome_bind (htree.isSome_of_resolve hresolve)
  refine ⟨Setting.sight_congr rfl (h.subcommand?_eq htree hcommand hout.ne) ?_, ?_, ?_, ?_⟩
  · intro text
    exact congrArg (Scope.resolve · text) (h.scope_eq htree hcommand hout)
  · intro text option hresolve
    have hoption := hresolved text option hresolve
    simp only [Setting.taking, hcapacity option hoption]
    simp only [Setting.of, h.slot?_eq htree hoption]
  · intro text option hresolve value
    simp only [Setting.inlineValues, hcapacity option (hresolved text option hresolve)]
  · simp only [Setting.slots, Setting.of, CommandTree.arguments, h.command?_eq hcommand hout.ne]
    refine List.map_congr_left fun argument hargument => ?_
    rw [(h.alikeAt argument (htree.lt_size_of_mem_arguments hargument)).argument?]

end Grown

end CommandTree

end CommandLine
