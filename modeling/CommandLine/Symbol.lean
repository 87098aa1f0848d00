import CommandLine.Alias
import CommandLine.Value.Conversion

/-!
# Symbols

A symbol is a command, an option or an argument. Symbols refer to each other by their numbers in
a tree, in order of declaration from the root command at 0. Every option owns one argument, which
holds its values; a command owns subcommands, options and positional arguments.

What an action does is left open: `β` is the type of action bodies, and whoever runs actions says
what a body means.
-/

namespace CommandLine

/-- The number of a symbol in its tree. -/
abbrev SymbolId := Nat

/-- What a command line can set off, and when it may run. -/
structure Action (β : Type) where
  /-- An action that is not exclusive also runs ahead of an action selected later. -/
  exclusive : Bool := true
  /-- Whether the action may run in spite of parse errors. -/
  handlesErrors : Bool := false
  body : β

/-- A converted value on its way through a validator. -/
structure Candidate where
  symbol : SymbolId
  displayName : String
  raws : List String
  value : Value

/-- A check of a converted value; a rejection says why. -/
abbrev Validator := Candidate → Option String

/-- A default that is evaluated each time it is needed; its values are numbered from 0. -/
abbrev Supplier := Nat → Value

/-- What only a command has. -/
structure CommandNode (β : Type) where
  commands : List SymbolId := []
  /-- The options declared on the command, whether it passes them on or not. -/
  options : List SymbolId := []
  arguments : List SymbolId := []
  /-- Whether tokens that match nothing are errors. -/
  strict : Bool := true
  action : Option (Action β) := none

/-- What only an option has. -/
structure OptionNode (β : Type) where
  argument : SymbolId
  required : Bool := false
  /-- Whether one occurrence may take several values. -/
  multi : Bool := true
  /-- Whether the option can be given under every descendant of its command. -/
  inherited : Bool := false
  action : Option (Action β) := none
  validators : List Validator := []

/-- What only an argument has. -/
structure ArgumentNode where
  type : ValueType
  arity : Arity
  default : Option Supplier := none
  validators : List Validator := []

/-- The three kinds of symbols. -/
inductive Role (β : Type) where
  | command (node : CommandNode β)
  | option (node : OptionNode β)
  | argument (node : ArgumentNode)

/-- A symbol of a tree. -/
structure Symbol (β : Type) where
  explicitName : Option String
  aliases : AliasSet
  description : Option String
  hidden : Bool
  role : Role β
  parent : Option SymbolId

namespace Symbol

variable {β : Type}

/-- The name of a symbol: the given one, or its longest alias without dashes. -/
def name (symbol : Symbol β) : String :=
  symbol.explicitName.getD ((symbol.aliases.longest?.map Alias.stripDash).getD "")

/-- The name of a symbol in messages: its longest alias, or its name if it has none. -/
def displayName (symbol : Symbol β) : String := symbol.aliases.longest?.getD symbol.name

/-- What a symbol is as a command. -/
def command? (symbol : Symbol β) : Option (CommandNode β) :=
  match symbol.role with
  | .command node => some node
  | _ => none

/-- What a symbol is as an option. -/
def option? (symbol : Symbol β) : Option (OptionNode β) :=
  match symbol.role with
  | .option node => some node
  | _ => none

/-- What a symbol is as an argument. -/
def argument? (symbol : Symbol β) : Option ArgumentNode :=
  match symbol.role with
  | .argument node => some node
  | _ => none

/-- The action attached to a command or an option. -/
def action? (symbol : Symbol β) : Option (Action β) :=
  match symbol.role with
  | .command node => node.action
  | .option node => node.action
  | .argument _ => none

end CommandLine.Symbol
