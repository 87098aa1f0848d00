import CommandLine.Report

/-!
# Selecting an action

The action of the last matched option that has one is selected, and the actions of earlier options
run ahead of it unless they are exclusive. Without such an option, the deepest command's own action
is selected, if it has one.
-/

namespace CommandLine

/-- The symbol whose action is selected, and those whose actions run ahead of it. -/
structure Selection where
  owner : Option SymbolId := none
  ahead : List SymbolId := []
  deriving DecidableEq, Repr

namespace Report

variable {β : Type}

/-- The matched options that have an action. -/
def actingOptions (report : Report β) : List SymbolId :=
  report.optionIds.filter fun option => (report.tree.action? option).isSome

/-- The selection of a report. -/
def selection (report : Report β) : Selection :=
  match report.actingOptions.getLast? with
  | some option =>
      { owner := some option
        ahead := report.actingOptions.dropLast.filter fun earlier =>
          (report.tree.action? earlier).any (!·.exclusive) }
  | none =>
      if (report.tree.command? report.terminal).any (·.action.isSome) then
        { owner := some report.terminal }
      else {}

/-- The selected action. -/
def action? (report : Report β) : Option (Action β) :=
  report.selection.owner.bind report.tree.action?

/-- The actions that run ahead of the selected one. -/
def actionsAhead (report : Report β) : List (Action β) :=
  report.selection.ahead.filterMap report.tree.action?

end CommandLine.Report
