import CommandLine.CommandTree.Edit
import Mathlib.Logic.Basic

/-!
# What an edit does

An edit that is carried out either appends symbols and enters the first of them into a list of its
command, or changes one symbol in place. `Edited` lists these outcomes together with what was
checked on the way, so that facts about edited trees are proved by one case for each edit.

A sequence of edits goes on after one that is refused, from the tree as it was.
-/

namespace CommandLine.CommandTree

variable {β : Type}

/-- The trees that the edits of a tree lead to, with the checks that each edit passed. -/
inductive Edited (tree : CommandTree β) : Edit β → EditReply → CommandTree β → Prop where
  | addCommand {parent : SymbolId} {decl : CommandDecl β} {node : CommandNode β}
      (hparent : tree.command? parent = some node)
      (hchecked : Alias.checkAll (decl.name :: decl.aliases) = .ok ()) :
      Edited tree (.addCommand parent decl) (.added tree.size)
        ((tree.push (decl.symbol (some parent))).modify parent
          (Symbol.onCommand (CommandNode.addCommand tree.size)))
  | addOption {parent : SymbolId} {decl : OptionDecl β} {inherited : Bool} {node : CommandNode β}
      (hparent : tree.command? parent = some node) (hnonempty : decl.aliases.isEmpty = false)
      (hchecked : Alias.checkAll decl.aliases = .ok ()) :
      Edited tree (.addOption parent decl inherited) (.added tree.size)
        (((tree.push (decl.symbol inherited (tree.size + 1) parent)).push
          (decl.slot.symbol true tree.size)).modify parent
            (Symbol.onCommand (CommandNode.addOption tree.size)))
  | addArgument {parent : SymbolId} {decl : ArgumentDecl} {node : CommandNode β}
      (hparent : tree.command? parent = some node) :
      Edited tree (.addArgument parent decl) (.added tree.size)
        ((tree.push (decl.symbol false parent)).modify parent
          (Symbol.onCommand (CommandNode.addArgument tree.size)))
  | setAction {id : SymbolId} {action : Action β} {symbol changed : Symbol β}
      (hsymbol : tree.symbol? id = some symbol) (hchanged : symbol.withAction? action = some changed) :
      Edited tree (.setAction id action) .done (tree.modify id fun _ => changed)
  | addAlias {id : SymbolId} {text : String} {symbol : Symbol β}
      (hchecked : Alias.check text = .ok ()) (hsymbol : tree.symbol? id = some symbol)
      (hkind : symbol.argument? = none) :
      Edited tree (.addAlias id text) .done
        (tree.modify id fun symbol => { symbol with aliases := symbol.aliases.insert text })
  | removeAlias {id : SymbolId} {text : String} {symbol : Symbol β}
      (hsymbol : tree.symbol? id = some symbol) :
      Edited tree (.removeAlias id text) (.removed (decide (text ∈ symbol.aliases)))
        (tree.modify id fun symbol => { symbol with aliases := symbol.aliases.erase text })
  | setName {id : SymbolId} {name : String} {symbol : Symbol β}
      (hsymbol : tree.symbol? id = some symbol)
      (hchecked : symbol.command?.isSome → Alias.check name = .ok ()) :
      Edited tree (.setName id name) .done (tree.modify id (Symbol.rename name))
  | setDescription {id : SymbolId} {text : String} {symbol : Symbol β}
      (hsymbol : tree.symbol? id = some symbol) :
      Edited tree (.setDescription id text) .done
        (tree.modify id fun symbol => { symbol with description := some text })
  | setHidden {id : SymbolId} {hidden : Bool} {symbol : Symbol β}
      (hsymbol : tree.symbol? id = some symbol) :
      Edited tree (.setHidden id hidden) .done
        (tree.modify id fun symbol => { symbol with hidden })

variable {tree next : CommandTree β}

/-- A symbol is there exactly when an edit addressed to it gets past the first check. -/
theorem expectSymbol_eq_ok {id : SymbolId} {symbol : Symbol β} :
    tree.expectSymbol id = .ok symbol ↔ tree.symbol? id = some symbol := by
  unfold expectSymbol
  cases tree.symbol? id <;> simp

/-- A command is there exactly when an edit addressed to it gets past the first check. -/
theorem expectCommand_eq_ok {id : SymbolId} {node : CommandNode β} :
    tree.expectCommand id = .ok node ↔ tree.command? id = some node := by
  unfold expectCommand expectSymbol command?
  cases tree.symbol? id with
  | none => simp [bind, Except.bind]
  | some symbol =>
    cases hcommand : symbol.command? <;> simp [bind, Except.bind, hcommand]

/-- A sequence of two steps succeeds when the first does and the second does with its result. -/
theorem bind_eq_ok {E A B : Type} {first : Except E A} {second : A → Except E B} {result : B} :
    first >>= second = .ok result ↔ ∃ value, first = .ok value ∧ second value = .ok result := by
  cases first <;> simp [bind, Except.bind]

/-- A mapped step succeeds when the step does. -/
theorem map_eq_ok {E A B : Type} {step : Except E A} {change : A → B} {result : B} :
    step.map change = .ok result ↔ ∃ value, step = .ok value ∧ change value = result := by
  cases step <;> simp [Except.map]

/-- Every edit that is carried out has one of the listed outcomes. -/
theorem edited_of_edit {edit : Edit β} {reply : EditReply}
    (h : tree.edit edit = .ok (reply, next)) : Edited tree edit reply next := by
  cases edit with
  | addCommand parent decl =>
    simp only [CommandTree.edit, addCommand, map_eq_ok, bind_eq_ok, expectCommand_eq_ok, pure,
      Except.pure, Except.ok.injEq, Prod.mk.injEq] at h
    obtain ⟨_, ⟨node, hparent, _, hchecked, rfl⟩, rfl, rfl⟩ := h
    exact .addCommand hparent hchecked
  | addOption parent decl inherited =>
    simp only [CommandTree.edit, addOption, map_eq_ok, bind_eq_ok, expectCommand_eq_ok, pure,
      Except.pure, Prod.mk.injEq] at h
    obtain ⟨_, ⟨node, hparent, h⟩, rfl, rfl⟩ := h
    cases hempty : decl.aliases.isEmpty with
    | true => simp [hempty, throw, throwThe, MonadExceptOf.throw, bind, Except.bind] at h
    | false =>
      simp only [hempty, Bool.false_eq_true, if_false, bind_eq_ok, Except.ok.injEq] at h
      obtain ⟨_, hchecked, rfl⟩ := h
      exact .addOption hparent hempty hchecked
  | addArgument parent decl =>
    simp only [CommandTree.edit, addArgument, map_eq_ok, bind_eq_ok, expectCommand_eq_ok, pure,
      Except.pure, Except.ok.injEq, Prod.mk.injEq] at h
    obtain ⟨_, ⟨node, hparent, rfl⟩, rfl, rfl⟩ := h
    exact .addArgument hparent
  | setAction id action =>
    simp only [CommandTree.edit, setAction, map_eq_ok, bind_eq_ok, expectSymbol_eq_ok,
      Prod.mk.injEq] at h
    obtain ⟨_, ⟨symbol, hsymbol, h⟩, rfl, rfl⟩ := h
    cases hchanged : symbol.withAction? action with
    | none => simp [hchanged, throw, throwThe, MonadExceptOf.throw] at h
    | some changed =>
      simp only [hchanged, pure, Except.pure, Except.ok.injEq] at h
      subst h
      exact .setAction hsymbol hchanged
  | addAlias id text =>
    simp only [CommandTree.edit, addAlias, map_eq_ok, bind_eq_ok, expectSymbol_eq_ok,
      Prod.mk.injEq] at h
    obtain ⟨_, ⟨_, hchecked, symbol, hsymbol, h⟩, rfl, rfl⟩ := h
    cases hkind : symbol.argument? with
    | some node => simp [hkind, throw, throwThe, MonadExceptOf.throw] at h
    | none =>
      simp only [hkind, pure, Except.pure, Except.ok.injEq] at h
      subst h
      exact .addAlias hchecked hsymbol hkind
  | removeAlias id text =>
    simp only [CommandTree.edit, removeAlias, map_eq_ok, bind_eq_ok, expectSymbol_eq_ok, pure,
      Except.pure, Except.ok.injEq, Prod.mk.injEq] at h
    obtain ⟨_, ⟨symbol, hsymbol, rfl⟩, rfl, rfl⟩ := h
    exact .removeAlias hsymbol
  | setName id name =>
    simp only [CommandTree.edit, setName, map_eq_ok, bind_eq_ok, expectSymbol_eq_ok, pure,
      Except.pure, Prod.mk.injEq] at h
    obtain ⟨_, ⟨symbol, hsymbol, h⟩, rfl, rfl⟩ := h
    cases hcommand : symbol.command? with
    | none =>
      simp only [hcommand, Except.ok.injEq] at h
      subst h
      exact .setName hsymbol (by simp [hcommand])
    | some node =>
      simp only [hcommand, bind_eq_ok, Except.ok.injEq] at h
      obtain ⟨_, hchecked, rfl⟩ := h
      exact .setName hsymbol fun _ => hchecked
  | setDescription id text =>
    simp only [CommandTree.edit, setDescription, map_eq_ok, bind_eq_ok, expectSymbol_eq_ok, pure,
      Except.pure, Except.ok.injEq, Prod.mk.injEq] at h
    obtain ⟨_, ⟨symbol, hsymbol, rfl⟩, rfl, rfl⟩ := h
    exact .setDescription hsymbol
  | setHidden id hidden =>
    simp only [CommandTree.edit, setHidden, map_eq_ok, bind_eq_ok, expectSymbol_eq_ok, pure,
      Except.pure, Except.ok.injEq, Prod.mk.injEq] at h
    obtain ⟨_, ⟨symbol, hsymbol, rfl⟩, rfl, rfl⟩ := h
    exact .setHidden hsymbol

/-- The tree after a sequence of edits, in which a refused edit changes nothing. -/
def editAll (tree : CommandTree β) : List (Edit β) → CommandTree β
  | [] => tree
  | edit :: edits =>
      match tree.edit edit with
      | .ok (_, next) => next.editAll edits
      | .error _ => tree.editAll edits

/-- A sequence of edits may be cut anywhere. -/
theorem editAll_append (tree : CommandTree β) (first second : List (Edit β)) :
    tree.editAll (first ++ second) = (tree.editAll first).editAll second := by
  induction first generalizing tree with
  | nil => rfl
  | cons edit edits ih =>
    simp only [List.cons_append, editAll]
    split <;> rw [ih]

/-- Edits lead from a reachable tree to reachable trees only. -/
theorem Reachable.editAll (h : Reachable tree) (edits : List (Edit β)) :
    Reachable (tree.editAll edits) := by
  induction edits generalizing tree with
  | nil => exact h
  | cons edit edits ih =>
    simp only [CommandTree.editAll]
    split
    · exact ih (h.edit ‹_›)
    · exact ih h

/-- The reachable trees are those that some sequence of edits, refused or not, makes of a root. -/
theorem reachable_iff_exists_editAll :
    Reachable tree ↔ ∃ decl edits, (new decl).editAll edits = tree := by
  constructor
  · intro h
    induction h with
    | new decl => exact ⟨decl, [], rfl⟩
    | @edit tree next edit reply _ hedit ih =>
      obtain ⟨decl, edits, rfl⟩ := ih
      refine ⟨decl, edits ++ [edit], ?_⟩
      rw [editAll_append]
      simp only [CommandTree.editAll, hedit]
  · rintro ⟨decl, edits, rfl⟩
    exact (Reachable.new decl).editAll edits

/-- A program with a required option, which its only subcommand inherits: `app --tag <name>...`
and `app build <target> --tag <name>...`. -/
def sample : CommandTree Unit :=
  (new { name := "app" }).editAll
    [.addOption root
        { aliases := ["--tag", "-t"]
          argument := some { name := "name", arity := some ⟨1, 3⟩ }
          required := true }
        true,
      .addCommand root { name := "build" },
      .addArgument 3 { name := "target", type := .uint }]

/-- Edits make the sample out of a root command. -/
theorem reachable_sample : Reachable sample := (Reachable.new _).editAll _

end CommandLine.CommandTree
