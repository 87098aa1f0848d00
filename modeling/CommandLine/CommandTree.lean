import CommandLine.Symbol.Declaration

/-!
# Symbol trees

A tree holds its symbols in order of declaration. Symbols are only ever added, so a number keeps
its meaning for good, and a parent is declared before its children. Asking for a number that no
symbol has is not an error: every question has an answer for it.
-/

namespace CommandLine

/-- The commands, options and arguments of one program. -/
structure CommandTree (β : Type) where
  symbols : Array (Symbol β)

namespace CommandTree

variable {β : Type}

/-- The number of the root command. -/
def root : SymbolId := 0

/-- The tree with nothing but a root command, whose name and aliases may be any texts. -/
def new (decl : CommandDecl β) : CommandTree β := ⟨#[decl.symbol none]⟩

/-- The number of symbols, which is also the number of the next one. -/
def size (tree : CommandTree β) : Nat := tree.symbols.size

/-- The symbol with a given number. -/
def symbol? (tree : CommandTree β) (id : SymbolId) : Option (Symbol β) := tree.symbols[id]?

/-- The kind of a symbol with what only that kind has. -/
def role? (tree : CommandTree β) (id : SymbolId) : Option (Role β) :=
  (tree.symbol? id).map (·.role)

/-- The command with a given number. -/
def command? (tree : CommandTree β) (id : SymbolId) : Option (CommandNode β) :=
  (tree.symbol? id).bind Symbol.command?

/-- The option with a given number. -/
def option? (tree : CommandTree β) (id : SymbolId) : Option (OptionNode β) :=
  (tree.symbol? id).bind Symbol.option?

/-- The argument with a given number. -/
def argument? (tree : CommandTree β) (id : SymbolId) : Option ArgumentNode :=
  (tree.symbol? id).bind Symbol.argument?

/-- The argument of an option. -/
def slot? (tree : CommandTree β) (option : SymbolId) : Option ArgumentNode :=
  (tree.option? option).bind fun node => tree.argument? node.argument

/-- The name of a symbol. -/
def name (tree : CommandTree β) (id : SymbolId) : String := (tree.symbol? id).elim "" Symbol.name

/-- The name of a symbol in messages. -/
def displayName (tree : CommandTree β) (id : SymbolId) : String :=
  (tree.symbol? id).elim "" Symbol.displayName

/-- The aliases of a symbol in the order in which they were added. -/
def aliases (tree : CommandTree β) (id : SymbolId) : List String :=
  (tree.symbol? id).elim [] (·.aliases.toList)

/-- The description of a symbol. -/
def description? (tree : CommandTree β) (id : SymbolId) : Option String :=
  (tree.symbol? id).bind (·.description)

/-- Whether help and suggestions leave a symbol out. -/
def isHidden (tree : CommandTree β) (id : SymbolId) : Bool := (tree.symbol? id).any (·.hidden)

/-- The symbol that a symbol was added to. -/
def parent? (tree : CommandTree β) (id : SymbolId) : Option SymbolId :=
  (tree.symbol? id).bind (·.parent)

/-- The subcommands of a command. -/
def commands (tree : CommandTree β) (id : SymbolId) : List SymbolId :=
  (tree.command? id).elim [] (·.commands)

/-- The options declared on a command. -/
def options (tree : CommandTree β) (id : SymbolId) : List SymbolId :=
  (tree.command? id).elim [] (·.options)

/-- The positional arguments of a command. -/
def arguments (tree : CommandTree β) (id : SymbolId) : List SymbolId :=
  (tree.command? id).elim [] (·.arguments)

/-- The subcommands, options and arguments of a command in this order, or an option's argument. -/
def children (tree : CommandTree β) (id : SymbolId) : List SymbolId :=
  match tree.role? id with
  | some (.command node) => node.commands ++ node.options ++ node.arguments
  | some (.option node) => [node.argument]
  | _ => []

/--
The parent of a symbol, its parent, and so on, nearest first. Parents have smaller numbers than
their children, so the chain ends.
-/
def ancestors (tree : CommandTree β) (id : SymbolId) : List SymbolId :=
  match tree.parent? id with
  | none => []
  | some parent => if _ : parent < id then parent :: tree.ancestors parent else [parent]
termination_by id

/-- The arity of an argument, or of the argument of an option. -/
def arity? (tree : CommandTree β) (id : SymbolId) : Option Arity :=
  match tree.role? id with
  | some (.argument node) => some node.arity
  | some (.option node) => (tree.argument? node.argument).map (·.arity)
  | _ => none

/-- Whether a symbol is an option that has to be given. -/
def isRequired (tree : CommandTree β) (id : SymbolId) : Bool := (tree.option? id).any (·.required)

/-- Whether a symbol is an option that descendants of its command inherit. -/
def isInherited (tree : CommandTree β) (id : SymbolId) : Bool :=
  (tree.option? id).any (·.inherited)

/-- Whether a symbol answers to a text. -/
def hasAlias (tree : CommandTree β) (id : SymbolId) (text : String) : Bool :=
  (tree.symbol? id).any fun symbol => decide (text ∈ symbol.aliases)

/-- The first subcommand of a command that answers to a text. -/
def subcommand? (tree : CommandTree β) (command : SymbolId) (text : String) :
    Option SymbolId :=
  (tree.commands command).find? (tree.hasAlias · text)

/-- The action attached to a command or an option. -/
def action? (tree : CommandTree β) (id : SymbolId) : Option (Action β) :=
  (tree.symbol? id).bind Symbol.action?

/-- A new tree has one symbol. -/
@[simp] theorem size_new (decl : CommandDecl β) : (new decl).size = 1 := rfl

/-- The numbers of the symbols of a tree are those below its size. -/
theorem isSome_symbol?_iff {tree : CommandTree β} {id : SymbolId} :
    (tree.symbol? id).isSome ↔ id < tree.size := by
  simp [symbol?, size]

end CommandLine.CommandTree
