import CommandLine.Console

/-!
# Running the selected action

A report with errors is only reported, unless the selected action handles errors. Otherwise the
actions ahead of the selected one run first, and the first action that fails or panics is the
last one that runs: the exit code is then 1. If none does, the exit code is the selected action's
own, and 0 if no action is selected.
-/

namespace CommandLine

/-- When an action panics. -/
inductive Stage where
  | preparing
  | running
  deriving DecidableEq, Repr

/-- How an action ends. A panic may come without a message. -/
inductive Outcome where
  | exit (code : Int32)
  | failure (message : String)
  | panic (stage : Stage) (message : Option String)
  deriving DecidableEq

/-- What the bodies of actions do, given a report and whether cancellation was asked for. -/
abbrev Performer (β : Type) := β → Report β → (cancelled : Bool) → Writing Outcome

/-- The exit code of a command line with the actions that were started for it, in order. -/
structure Invocation (β : Type) where
  code : Int32
  started : List (Action β) := []

/-- The exit code of an action that fails or panics. -/
def failureCode : Int32 := 1

/-- The exit code of an outcome. -/
def Outcome.code : Outcome → Int32
  | .exit code => code
  | .failure _ => failureCode
  | .panic _ _ => failureCode

/-- Whether actions may run after an outcome. -/
def Outcome.goesOn : Outcome → Bool
  | .exit _ => true
  | _ => false

/-- What is logged about an outcome. -/
def Outcome.events : Outcome → List Event
  | .exit _ => []
  | .failure message => [.actionFailed message]
  | .panic _ message => [.actionPanicked (message.getD "unknown panic")]

namespace Report

variable {β : Type}

/-- Runs one action, and logs how it ends unless it ends well. -/
def runAction (report : Report β) (perform : Performer β) (cancelled : Bool)
    (action : Action β) : Writing Outcome := do
  let outcome ← perform action.body report cancelled
  Console.record outcome.events
  return outcome

/-- Runs actions in order up to the first one that does not end well. -/
def runActions (report : Report β) (perform : Performer β) (cancelled : Bool) :
    List (Action β) → Writing (Invocation β)
  | [] => return { code := 0 }
  | action :: actions => do
      let outcome ← report.runAction perform cancelled action
      if outcome.goesOn && !actions.isEmpty then
        let rest ← report.runActions perform cancelled actions
        return { rest with started := action :: rest.started }
      else return { code := outcome.code, started := [action] }

/-- Whether the errors of a report are reported instead of running the selected action. -/
def isRefused (report : Report β) : Bool :=
  !report.errors.isEmpty && !report.action?.any (·.handlesErrors)

/-- Runs the selected action and those ahead of it, or reports the errors of the report. -/
def invoke (report : Report β) (perform : Performer β) (cancelled : Bool) :
    Writing (Invocation β) := do
  if report.isRefused then
    Console.record [.reportingErrors report.errors.length]
    report.errors.forM fun error => Console.printError error.text
    return { code := report.config.errorExitCode }
  else
    match report.action? with
    | none => return { code := 0 }
    | some action => report.runActions perform cancelled (report.actionsAhead ++ [action])

/-- Runs the selected action and those ahead of it where nothing can ask for cancellation. -/
def invokeBlocking (report : Report β) (perform : Performer β) : Writing (Invocation β) :=
  report.invoke perform false

end CommandLine.Report
