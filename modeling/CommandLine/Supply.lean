import CommandLine.CommandTree

/-!
# Evaluating defaults

A default is evaluated whenever it is needed, and may give another value each time. What was
evaluated so far is therefore passed along, as the list of the arguments concerned, most recent
first.
-/

namespace CommandLine

/-- The arguments whose defaults were evaluated so far, most recent first. -/
abbrev Evaluations := List SymbolId

/-- A computation that may evaluate defaults. -/
abbrev Evaluating := StateM Evaluations

/-- The next value of an argument's default. -/
def Supplier.evaluate (supplier : Supplier) (argument : SymbolId) : Evaluating Value :=
  fun evaluations => (supplier (evaluations.count argument), argument :: evaluations)

/-- The default of an argument, evaluated if there is one. -/
def CommandTree.default? {β : Type} (tree : CommandTree β) (argument : SymbolId) :
    Evaluating (Option Value) :=
  match (tree.argument? argument).bind (·.default) with
  | none => pure none
  | some supplier => some <$> supplier.evaluate argument

end CommandLine
