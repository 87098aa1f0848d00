import CommandLine.Report.Diagnosis
import CommandLine.Report.Selection

/-!
# Log events

What is logged while a command line is read and while its actions run. The events of reading are
drawn from the report; a command line that ends in a torn token leaves those of the tokens before.
-/

namespace CommandLine

/-- The levels of log events. -/
inductive Level where
  | trace
  | debug
  | warn
  deriving DecidableEq, Repr

/-- Something that is logged. -/
inductive Event where
  | parsing (command : String) (tokens : Nat)
  | descending (command : String) (position : Nat)
  | matchedOption (option : String) (position : Nat)
  | unmatchedToken (token : String) (position : Nat)
  | selectedOption (option : String) (ahead : Nat)
  | selectedCommand (command : String)
  | nothingSelected (command : String)
  | parsed (terminal : String) (errors unmatched : Nat)
  | reportingErrors (count : Nat)
  | actionFailed (message : String)
  | actionPanicked (message : String)
  deriving DecidableEq, Repr

namespace Event

/-- The level of an event. -/
def level : Event → Level
  | .descending _ _ => .trace
  | .matchedOption _ _ => .trace
  | .unmatchedToken _ _ => .trace
  | .actionFailed _ => .warn
  | .actionPanicked _ => .warn
  | _ => .debug

/-- The message of an event. -/
def message : Event → String
  | .parsing _ _ => "parsing command line"
  | .descending _ _ => "descending"
  | .matchedOption _ _ => "matched option"
  | .unmatchedToken _ _ => "unmatched token"
  | .selectedOption _ _ => "selected option action"
  | .selectedCommand _ => "selected command action"
  | .nothingSelected _ => "no action selected"
  | .parsed _ _ _ => "parse complete"
  | .reportingErrors _ => "reporting parse errors"
  | .actionFailed _ => "action failed"
  | .actionPanicked _ => "action panicked"

/-- The fields of an event with their names. -/
def fields : Event → List (String × String)
  | .parsing command tokens => [("command", command), ("tokens", toString tokens)]
  | .descending command position => [("command", command), ("position", toString position)]
  | .matchedOption option position => [("option", option), ("position", toString position)]
  | .unmatchedToken token position => [("token", token), ("position", toString position)]
  | .selectedOption option ahead => [("option", option), ("pre_actions", toString ahead)]
  | .selectedCommand command => [("command", command)]
  | .nothingSelected command => [("command", command)]
  | .parsed terminal errors unmatched =>
      [("terminal", terminal), ("errors", toString errors), ("unmatched", toString unmatched)]
  | .reportingErrors count => [("errors", toString count)]
  | .actionFailed message => [("error", message)]
  | .actionPanicked message => [("panic", message)]

end Event

/-- The event of reading one token, if there is one. -/
def Reading.event? {β : Type} (tree : CommandTree β) (reading : Reading) : Option Event :=
  match reading.meaning with
  | .command id => some (.descending (tree.name id) reading.position)
  | .option id _ => some (.matchedOption (tree.name id) reading.position)
  | .unmatched => some (.unmatchedToken reading.text reading.position)
  | _ => none

namespace Report

variable {β : Type}

/-- The event of selecting an action. -/
def selectionEvent (report : Report β) : Event :=
  match report.selection.owner with
  | none => .nothingSelected (report.tree.name report.terminal)
  | some owner =>
      match report.tree.option? owner with
      | some _ => .selectedOption (report.tree.name owner) report.selection.ahead.length
      | none => .selectedCommand (report.tree.name owner)

/-- The events of reading a command line to its end. -/
def events (report : Report β) : List Event :=
  .parsing (report.tree.name report.start) report.readings.length
    :: report.readings.filterMap (Reading.event? report.tree)
    ++ [report.selectionEvent,
      .parsed (report.tree.name report.terminal) report.errors.length report.unmatched.length]

end Report

/-- The events of reading tokens, to the end or up to a fault. -/
def Setting.events {β : Type} (setting : Setting β) (start : SymbolId) (tokens : List String) :
    List Event :=
  match setting.parse start tokens with
  | .ok report => report.events
  | .error .unknownStart => []
  | .error (.tornToken cursor) =>
      .parsing (setting.tree.name start) tokens.length
        :: cursor.readings.filterMap (Reading.event? setting.tree)

end CommandLine
