import CommandLine.Help
import CommandLine.Invocation

/-!
# Help and version options

Help and version are actions like any other, attached to options; they run in spite of parse
errors, and print the help text of the deepest command or a version.
-/

namespace CommandLine

/-- An action that every program can offer. -/
inductive StandardAction where
  | help (style : HelpStyle)
  | version (number : String)

namespace StandardAction

variable {β : Type}

/-- What a standard action does. -/
def perform (action : StandardAction) (report : Report β) (_cancelled : Bool) :
    Writing Outcome := do
  match action with
  | .help style =>
      Console.print (← Console.evaluating (style.render report.tree report.terminal))
  | .version number => Console.printLine number
  return .exit 0

/-- A standard action as an action of a tree, which runs in spite of parse errors. -/
def toAction (embed : StandardAction → β) (action : StandardAction) : Action β where
  handlesErrors := true
  body := embed action

end StandardAction

namespace OptionDecl

variable {β : Type}

/-- The help option with the overrides of a style. -/
def help (embed : StandardAction → β) (style : HelpStyle) : OptionDecl β where
  aliases := ["--help", "-h", "-?"]
  description := some "Show help and usage information"
  action := some ((StandardAction.help style).toAction embed)

/-- The option that prints a version. -/
def version (embed : StandardAction → β) (number : String) : OptionDecl β where
  aliases := ["--version"]
  description := some "Show version information"
  action := some ((StandardAction.version number).toAction embed)

end CommandLine.OptionDecl
