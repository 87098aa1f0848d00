import CommandLine.Symbol

/-!
# Misuse of a symbol tree

The ways in which a tree can be built wrongly. Malformed command lines never end up here.
-/

namespace CommandLine

/-- The kind of symbol that an edit asks for. -/
inductive Expected where
  | command
  | commandOrOption
  deriving DecidableEq, Repr

/-- What is wrong with an edit of a tree, or with a tree. -/
inductive TreeError where
  | noAliases
  | invalidAlias (text : String)
  | wrongKind (id : SymbolId) (expected : Expected)
  | unknownSymbol (id : SymbolId)
  | duplicateAlias (command text : String)
  deriving DecidableEq, Repr

/-- The kind of symbol in words. -/
def Expected.text : Expected → String
  | .command => "command"
  | .commandOrOption => "command or option"

/-- The number of a symbol in words. -/
def SymbolId.text (id : SymbolId) : String := "SymbolId(" ++ toString id ++ ")"

/-- The error in words. -/
def TreeError.message : TreeError → String
  | .noAliases => "an option must have at least one alias"
  | .invalidAlias text =>
      "alias '" ++ text ++ "' is invalid: aliases must be non-empty and contain no whitespace"
  | .wrongKind id expected => "symbol " ++ id.text ++ " is not a " ++ expected.text
  | .unknownSymbol id => "symbol " ++ id.text ++ " does not belong to this tree"
  | .duplicateAlias command text =>
      "alias '" ++ text ++ "' is declared more than once under command '" ++ command ++ "'"

end CommandLine
