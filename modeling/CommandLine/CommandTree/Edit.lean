import CommandLine.CommandTree.Error
import CommandLine.CommandTree

/-!
# Editing a symbol tree

The ways in which a tree grows and changes. An edit that is refused leaves nothing behind: it
gives an error instead of a tree. What is checked first is the symbol that an edit is addressed
to, with one exception: a new alias is checked before the symbol that would get it.
-/

namespace CommandLine

/-- Refuses a text that cannot be an alias. -/
def Alias.check (text : String) : Except TreeError Unit :=
  if Alias.isWellFormed text then .ok () else .error (.invalidAlias text)

/-- Refuses the first text of a list that cannot be an alias. -/
def Alias.checkAll : List String → Except TreeError Unit
  | [] => .ok ()
  | text :: aliases => do
      Alias.check text
      Alias.checkAll aliases

namespace CommandNode

variable {β : Type}

/-- The command with one more subcommand. -/
def addCommand (id : SymbolId) (node : CommandNode β) : CommandNode β :=
  { node with commands := node.commands ++ [id] }

/-- The command with one more option. -/
def addOption (id : SymbolId) (node : CommandNode β) : CommandNode β :=
  { node with options := node.options ++ [id] }

/-- The command with one more positional argument. -/
def addArgument (id : SymbolId) (node : CommandNode β) : CommandNode β :=
  { node with arguments := node.arguments ++ [id] }

end CommandNode

namespace Symbol

variable {β : Type}

/-- A command changed in what only a command has; other symbols stay as they are. -/
def onCommand (change : CommandNode β → CommandNode β) (symbol : Symbol β) : Symbol β :=
  match symbol.role with
  | .command node => { symbol with role := .command (change node) }
  | _ => symbol

/-- A command or an option with a given action; there is none for an argument. -/
def withAction? (action : Action β) (symbol : Symbol β) : Option (Symbol β) :=
  match symbol.role with
  | .command node => some { symbol with role := .command { node with action := some action } }
  | .option node => some { symbol with role := .option { node with action := some action } }
  | .argument _ => none

/-- A symbol under another name. The name of a command is one of its aliases as well. -/
def rename (name : String) (symbol : Symbol β) : Symbol β :=
  match symbol.role with
  | .command _ =>
      let kept := symbol.explicitName.elim symbol.aliases symbol.aliases.erase
      { symbol with explicitName := some name, aliases := kept.insert name }
  | _ => { symbol with explicitName := some name }

end Symbol

namespace CommandTree

variable {β : Type}

/-- The symbol that an edit is addressed to. -/
def expectSymbol (tree : CommandTree β) (id : SymbolId) : Except TreeError (Symbol β) :=
  match tree.symbol? id with
  | some symbol => .ok symbol
  | none => .error (.unknownSymbol id)

/-- The command that an edit is addressed to. -/
def expectCommand (tree : CommandTree β) (id : SymbolId) : Except TreeError (CommandNode β) := do
  match (← tree.expectSymbol id).command? with
  | some node => .ok node
  | none => .error (.wrongKind id .command)

/-- The tree with one symbol changed. -/
def modify (tree : CommandTree β) (id : SymbolId) (change : Symbol β → Symbol β) :
    CommandTree β :=
  ⟨tree.symbols.modify id change⟩

/-- The tree with one symbol more. -/
def push (tree : CommandTree β) (symbol : Symbol β) : CommandTree β :=
  ⟨tree.symbols.push symbol⟩

/-- Adds a subcommand to a command. -/
def addCommand (tree : CommandTree β) (parent : SymbolId) (decl : CommandDecl β) :
    Except TreeError (CommandTree β) := do
  let _ ← tree.expectCommand parent
  Alias.checkAll (decl.name :: decl.aliases)
  return (tree.push (decl.symbol (some parent))).modify parent
    (Symbol.onCommand (CommandNode.addCommand tree.size))

/--
Adds an option to a command, followed by the option's argument. Descendants of the command can be
given an inherited option as well.
-/
def addOption (tree : CommandTree β) (parent : SymbolId) (decl : OptionDecl β)
    (inherited : Bool) : Except TreeError (CommandTree β) := do
  let _ ← tree.expectCommand parent
  if decl.aliases.isEmpty then throw .noAliases
  Alias.checkAll decl.aliases
  let withOption := tree.push (decl.symbol inherited (tree.size + 1) parent)
  return (withOption.push (decl.slot.symbol true tree.size)).modify parent
    (Symbol.onCommand (CommandNode.addOption tree.size))

/-- Adds a positional argument to a command. -/
def addArgument (tree : CommandTree β) (parent : SymbolId) (decl : ArgumentDecl) :
    Except TreeError (CommandTree β) := do
  let _ ← tree.expectCommand parent
  return (tree.push (decl.symbol false parent)).modify parent
    (Symbol.onCommand (CommandNode.addArgument tree.size))

/-- Attaches an action to a command or an option in place of the one it had. -/
def setAction (tree : CommandTree β) (id : SymbolId) (action : Action β) :
    Except TreeError (CommandTree β) := do
  match (← tree.expectSymbol id).withAction? action with
  | some symbol => return tree.modify id fun _ => symbol
  | none => throw (.wrongKind id .commandOrOption)

/-- Adds an alias to a command or an option. -/
def addAlias (tree : CommandTree β) (id : SymbolId) (text : String) :
    Except TreeError (CommandTree β) := do
  Alias.check text
  match (← tree.expectSymbol id).argument? with
  | some _ => throw (.wrongKind id .commandOrOption)
  | none =>
      return tree.modify id fun symbol => { symbol with aliases := symbol.aliases.insert text }

/-- Removes an alias of a symbol, and says whether it was there. -/
def removeAlias (tree : CommandTree β) (id : SymbolId) (text : String) :
    Except TreeError (Bool × CommandTree β) := do
  let symbol ← tree.expectSymbol id
  return (decide (text ∈ symbol.aliases),
    tree.modify id fun symbol => { symbol with aliases := symbol.aliases.erase text })

/-- Names a symbol. The name of a command has to be fit for an alias. -/
def setName (tree : CommandTree β) (id : SymbolId) (name : String) :
    Except TreeError (CommandTree β) := do
  match (← tree.expectSymbol id).command? with
  | some _ => Alias.check name
  | none => pure ()
  return tree.modify id (Symbol.rename name)

/-- Describes a symbol. -/
def setDescription (tree : CommandTree β) (id : SymbolId) (text : String) :
    Except TreeError (CommandTree β) := do
  let _ ← tree.expectSymbol id
  return tree.modify id fun symbol => { symbol with description := some text }

/-- Hides a symbol from help and suggestions, or shows it again. -/
def setHidden (tree : CommandTree β) (id : SymbolId) (hidden : Bool) :
    Except TreeError (CommandTree β) := do
  let _ ← tree.expectSymbol id
  return tree.modify id fun symbol => { symbol with hidden }

end CommandTree

/-- One edit of a tree. -/
inductive Edit (β : Type) where
  | addCommand (parent : SymbolId) (decl : CommandDecl β)
  | addOption (parent : SymbolId) (decl : OptionDecl β) (inherited : Bool)
  | addArgument (parent : SymbolId) (decl : ArgumentDecl)
  | setAction (id : SymbolId) (action : Action β)
  | addAlias (id : SymbolId) (text : String)
  | removeAlias (id : SymbolId) (text : String)
  | setName (id : SymbolId) (name : String)
  | setDescription (id : SymbolId) (text : String)
  | setHidden (id : SymbolId) (hidden : Bool)

/-- What an edit that was carried out tells besides the new tree. -/
inductive EditReply where
  | added (id : SymbolId)
  | removed (wasThere : Bool)
  | done
  deriving DecidableEq, Repr

namespace CommandTree

variable {β : Type}

/-- Carries out an edit. -/
def edit (tree : CommandTree β) : Edit β → Except TreeError (EditReply × CommandTree β)
  | .addCommand parent decl => (tree.addCommand parent decl).map (.added tree.size, ·)
  | .addOption parent decl inherited =>
      (tree.addOption parent decl inherited).map (.added tree.size, ·)
  | .addArgument parent decl => (tree.addArgument parent decl).map (.added tree.size, ·)
  | .setAction id action => (tree.setAction id action).map (.done, ·)
  | .addAlias id text => (tree.addAlias id text).map (.done, ·)
  | .removeAlias id text =>
      (tree.removeAlias id text).map fun (wasThere, tree) => (.removed wasThere, tree)
  | .setName id name => (tree.setName id name).map (.done, ·)
  | .setDescription id text => (tree.setDescription id text).map (.done, ·)
  | .setHidden id hidden => (tree.setHidden id hidden).map (.done, ·)

/-- The trees that edits can make out of a root command. -/
inductive Reachable : CommandTree β → Prop where
  | new (decl : CommandDecl β) : Reachable (new decl)
  | edit {tree next : CommandTree β} {edit : Edit β} {reply : EditReply} :
      Reachable tree → tree.edit edit = .ok (reply, next) → Reachable next

end CommandLine.CommandTree
