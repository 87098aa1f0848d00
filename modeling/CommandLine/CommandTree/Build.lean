import CommandLine.CommandTree.Clash
import CommandLine.CommandTree.Edit

/-!
# Writing down a tree

A tree is written down as a sequence of declarations, each of which gives the number of its symbol
to those that follow. The finished tree is checked for clashing aliases.
-/

namespace CommandLine

/-- A sequence of declarations, which ends at the first one that is refused. -/
abbrev Build (β : Type) := StateT (CommandTree β) (Except TreeError)

namespace Build

variable {β : Type}

/-- Carries out an edit, and gives the number that was free before it. -/
def edit (edit : Edit β) : Build β SymbolId := fun tree =>
  (tree.edit edit).map fun (_, next) => (tree.size, next)

/-- Declares a subcommand. -/
def command (parent : SymbolId) (decl : CommandDecl β) : Build β SymbolId :=
  edit (.addCommand parent decl)

/-- Declares an option of one command. -/
def option (parent : SymbolId) (decl : OptionDecl β) : Build β SymbolId :=
  edit (.addOption parent decl false)

/-- Declares an option of a command and its descendants. -/
def inheritedOption (parent : SymbolId) (decl : OptionDecl β) : Build β SymbolId :=
  edit (.addOption parent decl true)

/-- Declares a positional argument. -/
def argument (parent : SymbolId) (decl : ArgumentDecl) : Build β SymbolId :=
  edit (.addArgument parent decl)

/-- Attaches an action. -/
def action (id : SymbolId) (action : Action β) : Build β Unit := do
  let _ ← edit (.setAction id action)

/-- The tree of a root command and the declarations under it. -/
def run (root : CommandDecl β) (build : Build β Unit) : Except TreeError (CommandTree β) := do
  let ((), tree) ← StateT.run build (CommandTree.new root)
  tree.validate
  return tree

end CommandLine.Build
