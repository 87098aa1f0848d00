import CommandLine.Symbol

/-!
# Declarations

What a host writes down about a command, an option or an argument before it becomes a symbol of a
tree. A declaration is not checked until it is added.
-/

namespace CommandLine

/-- The declaration of a command. -/
structure CommandDecl (β : Type) where
  name : String
  /-- Texts that the command answers to besides its name. -/
  aliases : List String := []
  description : Option String := none
  hidden : Bool := false
  strict : Bool := true
  action : Option (Action β) := none

/-- The declaration of an argument, positional or behind an option. -/
structure ArgumentDecl where
  name : String
  type : ValueType := .string
  /-- The arity, if it is not the default one of the type. -/
  arity : Option Arity := none
  description : Option String := none
  hidden : Bool := false
  default : Option Supplier := none
  validators : List Validator := []

/-- The declaration of an option. -/
structure OptionDecl (β : Type) where
  aliases : List String
  /-- The name, if it is not taken from the aliases. -/
  name : Option String := none
  description : Option String := none
  hidden : Bool := false
  /-- The argument, if the option is not a flag. -/
  argument : Option ArgumentDecl := none
  required : Bool := false
  multi : Bool := true
  action : Option (Action β) := none
  validators : List Validator := []

namespace ArgumentDecl

/-- The node of a declared argument. -/
def node (decl : ArgumentDecl) (forOption : Bool) : ArgumentNode where
  type := decl.type
  arity := decl.arity.getD (decl.type.defaultArity forOption)
  default := decl.default
  validators := decl.validators

/-- The symbol of a declared argument. -/
def symbol {β : Type} (decl : ArgumentDecl) (forOption : Bool) (parent : SymbolId) :
    Symbol β where
  explicitName := some decl.name
  aliases := .empty
  description := decl.description
  hidden := decl.hidden
  role := .argument (decl.node forOption)
  parent := some parent

end ArgumentDecl

namespace CommandDecl

/-- The symbol of a declared command; its name is the first of its aliases. -/
def symbol {β : Type} (decl : CommandDecl β) (parent : Option SymbolId) : Symbol β where
  explicitName := some decl.name
  aliases := .ofList (decl.name :: decl.aliases)
  description := decl.description
  hidden := decl.hidden
  role := .command { strict := decl.strict, action := decl.action }
  parent := parent

end CommandDecl

namespace OptionDecl

variable {β : Type}

/-- The option with its values of a given type; the rest of its argument stays as it is. -/
def ofType (decl : OptionDecl β) (type : ValueType) : OptionDecl β :=
  { decl with argument := some { decl.argument.getD { name := "value" } with type } }

/-- The argument of a declared option; without one, the option is a flag. -/
def slot (decl : OptionDecl β) : ArgumentDecl :=
  decl.argument.getD { name := "value", type := .bool }

/-- The symbol of a declared option whose argument has the given number. -/
def symbol (decl : OptionDecl β) (inherited : Bool) (argument parent : SymbolId) : Symbol β where
  explicitName := decl.name
  aliases := .ofList decl.aliases
  description := decl.description
  hidden := decl.hidden
  role := .option {
    argument
    required := decl.required
    multi := decl.multi
    inherited
    action := decl.action
    validators := decl.validators }
  parent := some parent

end CommandLine.OptionDecl
