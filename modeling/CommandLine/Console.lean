import CommandLine.Event
import CommandLine.Supply

/-!
# The console of running actions

What actions leave behind: the text on both output streams, the log, and which defaults were
evaluated.
-/

namespace CommandLine

/-- What was written, logged and evaluated so far. -/
structure Console where
  output : String := ""
  errors : String := ""
  log : List Event := []
  evaluations : Evaluations := []

/-- A computation that writes to a console. -/
abbrev Writing := StateM Console

namespace Console

/-- Writes a text to the output. -/
def print (text : String) : Writing Unit :=
  modify fun console => { console with output := console.output ++ text }

/-- Writes a line to the output. -/
def printLine (line : String) : Writing Unit := print (line ++ "\n")

/-- Writes a line to the error output. -/
def printError (line : String) : Writing Unit :=
  modify fun console => { console with errors := console.errors ++ line ++ "\n" }

/-- Logs events in order. -/
def record (events : List Event) : Writing Unit :=
  modify fun console => { console with log := console.log ++ events }

/-- A computation that evaluates defaults, with the console's evaluations. -/
def evaluating {α : Type} (computation : Evaluating α) : Writing α :=
  fun console =>
    let (value, evaluations) := computation console.evaluations
    (value, { console with evaluations })

end CommandLine.Console
