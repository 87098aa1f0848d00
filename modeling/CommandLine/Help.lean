import CommandLine.Scope
import CommandLine.Supply
import CommandLine.Text.Blank

/-!
# Help texts

The help text of a command has its description, its usage line, and a section of rows for each of
its visible arguments, its visible options in scope, and its visible subcommands. A row has a left
column, padded to the widest one of its section, and a right column. Either column, and the
default that a row ends with, can be overridden for a symbol; a default that is not overridden is
evaluated for its row.
-/

namespace CommandLine

/-- Texts in place of those of a symbol's row. -/
structure RowOverride where
  first : Option String := none
  second : Option String := none
  /-- The default to show; an empty text shows none. -/
  default : Option String := none
  deriving DecidableEq, Repr

/-- How help is written: the overrides of rows, the latest first. -/
structure HelpStyle where
  overrides : List (SymbolId × RowOverride) := []
  deriving DecidableEq, Repr

/-- The two columns of a row. -/
structure HelpRow where
  first : String
  second : String
  deriving DecidableEq, Repr

namespace HelpStyle

variable {β : Type}

/-- The style with the overrides of a symbol replaced. -/
def customize (style : HelpStyle) (symbol : SymbolId) (texts : RowOverride) : HelpStyle :=
  ⟨(symbol, texts) :: style.overrides⟩

/-- The overrides of a symbol. -/
def overrideOf (style : HelpStyle) (symbol : SymbolId) : RowOverride :=
  (style.overrides.lookup symbol).getD {}

/-- Those of some symbols that are not hidden. -/
def visible (tree : CommandTree β) (symbols : List SymbolId) : List SymbolId :=
  symbols.filter (!tree.isHidden ·)

/-- An argument in a usage line: dots for several values, brackets if it can be left out. -/
def argumentUsage (tree : CommandTree β) (argument : SymbolId) : String :=
  let arity := (tree.arity? argument).getD .exactlyOne
  let text := "<" ++ tree.name argument ++ ">" ++ if 1 < arity.most then "..." else ""
  if arity.least = 0 ∨ (tree.argument? argument).any (·.default.isSome) then "[" ++ text ++ "]"
  else text

/-- The parts of a usage line: the path of names, the arguments, and what else can be given. -/
def usageParts (tree : CommandTree β) (scope : Scope) (id : SymbolId) : List String :=
  let names := (tree.ancestors id).reverse.map tree.name ++ [tree.name id]
  match tree.command? id with
  | none => names
  | some node =>
      names ++ (visible tree node.arguments).map (argumentUsage tree)
        ++ (if (visible tree scope.options).isEmpty then [] else ["[options]"])
        ++ (if (visible tree node.commands).isEmpty then [] else ["[command]"])

/-- The usage line of a symbol, given the options in scope at it. -/
def usageIn (tree : CommandTree β) (scope : Scope) (id : SymbolId) : String :=
  " ".intercalate (usageParts tree scope id)

/-- A text with another one after it, and a space between them if neither is empty. -/
def follow (text suffix : String) : String :=
  if suffix.isEmpty then text else if text.isEmpty then suffix else text ++ " " ++ suffix

/-- The description of a symbol, or else the name of its argument's type unless it is a flag. -/
def describe (tree : CommandTree β) (symbol : SymbolId) (argument : Option ArgumentNode) :
    String :=
  let text := (tree.description? symbol).getD ""
  match argument with
  | some node => if text.isEmpty ∧ !node.type.isBool then node.type.name else text
  | none => text

/-- A row with its overrides applied and the default of an argument added. -/
def finishRow (style : HelpStyle) (tree : CommandTree β) (symbol : SymbolId) (row : HelpRow)
    (argument : Option SymbolId) : Evaluating HelpRow := do
  let texts := style.overrideOf symbol
  let default ←
    match texts.default, argument with
    | some text, _ => pure text
    | none, some argument => (·.elim "" Value.text) <$> tree.default? argument
    | none, none => pure ""
  let suffix := if default.isEmpty then "" else "[default: " ++ default ++ "]"
  return ⟨texts.first.getD row.first, follow (texts.second.getD row.second) suffix⟩

/-- The row of a positional argument. -/
def argumentRow (style : HelpStyle) (tree : CommandTree β) (argument : SymbolId) :
    Evaluating HelpRow :=
  style.finishRow tree argument
    ⟨argumentUsage tree argument, describe tree argument (tree.argument? argument)⟩
    (some argument)

/-- Shorter aliases first, and of equally long ones the smaller text. -/
def shorterFirst (a b : String) : Bool :=
  decide (a.utf8ByteSize < b.utf8ByteSize)
    || (a.utf8ByteSize == b.utf8ByteSize && decide (a ≤ b))

/-- The aliases that stand for an option, shorter ones first. -/
def listedAliases (scope : Scope) (option : SymbolId) : List String :=
  (scope.aliasesOf option).mergeSort shorterFirst

/-- What follows the aliases of an option: its argument, if it takes values. -/
def valueUsage (tree : CommandTree β) (option : SymbolId) : String :=
  match tree.option? option, tree.slot? option with
  | some node, some argument =>
      if argument.arity.most = 0 ∨ argument.type.isBool then ""
      else " <" ++ tree.name node.argument ++ ">"
  | _, _ => ""

/-- The row of an option. -/
def optionRow (style : HelpStyle) (tree : CommandTree β) (scope : Scope) (option : SymbolId) :
    Evaluating HelpRow :=
  style.finishRow tree option
    ⟨", ".intercalate (listedAliases scope option) ++ valueUsage tree option,
      follow (describe tree option (tree.slot? option))
        (if tree.isRequired option then "(REQUIRED)" else "")⟩
    ((tree.option? option).map (·.argument))

/-- The row of a subcommand. -/
def commandRow (style : HelpStyle) (tree : CommandTree β) (command : SymbolId) :
    Evaluating HelpRow :=
  style.finishRow tree command
    ⟨" ".intercalate
      (tree.name command :: (visible tree (tree.arguments command)).map (argumentUsage tree)),
      (tree.description? command).getD ""⟩
    none

/-- A text with spaces after it up to a number of characters. -/
def pad (width : Nat) (text : String) : String :=
  text ++ String.ofList (List.replicate (width - text.length) ' ')

/-- One line of a section; without a right column the left one is not padded. -/
def rowLine (width : Nat) (row : HelpRow) : String :=
  if row.second.isEmpty then "  " ++ row.first ++ "\n"
  else "  " ++ pad width row.first ++ "  " ++ row.second ++ "\n"

/-- The section of some rows; the widest left column is counted in bytes. -/
def sectionText (title : String) (rows : List HelpRow) : String :=
  if rows.isEmpty then ""
  else
    let width := rows.foldl (fun width row => max width row.first.utf8ByteSize) 0
    title ++ ":\n" ++ String.join (rows.map (rowLine width)) ++ "\n"

/-- The rows of a command's positional arguments. -/
def argumentRows (style : HelpStyle) (tree : CommandTree β) (id : SymbolId) :
    Evaluating (List HelpRow) :=
  (visible tree (tree.arguments id)).mapM (style.argumentRow tree)

/-- The rows of the options in scope. -/
def optionRows (style : HelpStyle) (tree : CommandTree β) (scope : Scope) :
    Evaluating (List HelpRow) :=
  (visible tree scope.options).mapM (style.optionRow tree scope)

/-- The rows of a command's subcommands. -/
def commandRows (style : HelpStyle) (tree : CommandTree β) (id : SymbolId) :
    Evaluating (List HelpRow) :=
  (visible tree (tree.commands id)).mapM (style.commandRow tree)

/-- The help text of a symbol, given the options in scope at it. -/
def renderIn (style : HelpStyle) (tree : CommandTree β) (scope : Scope) (id : SymbolId) :
    Evaluating String := do
  let description := (tree.description? id).elim "" ("Description:\n  " ++ · ++ "\n\n")
  let usage := "Usage:\n  " ++ usageIn tree scope id ++ "\n\n"
  let arguments ← style.argumentRows tree id
  let options ← style.optionRows tree scope
  let commands ← style.commandRows tree id
  return Text.trimEnd (description ++ usage ++ sectionText "Arguments" arguments
    ++ sectionText "Options" options ++ sectionText "Commands" commands) ++ "\n"

/-- The help text of a symbol. -/
def render (style : HelpStyle) (tree : CommandTree β) (id : SymbolId) : Evaluating String :=
  style.renderIn tree (tree.scope id) id

/-- The usage line of a symbol. -/
def usage (tree : CommandTree β) (id : SymbolId) : String := usageIn tree (tree.scope id) id

/-- The help text for a number, if a symbol has it. -/
def render? (style : HelpStyle) (tree : CommandTree β) (id : SymbolId) :
    Evaluating (Option String) :=
  match tree.symbol? id with
  | none => pure none
  | some _ => some <$> style.render tree id

/-- The usage line for a number, if a symbol has it. -/
def usage? (tree : CommandTree β) (id : SymbolId) : Option String :=
  (tree.symbol? id).map fun _ => usage tree id

end CommandLine.HelpStyle
