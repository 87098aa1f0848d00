import CommandLine.Demo.Commands
import CommandLine.Demo.Output
import CommandLine.Demo.SampleApp
import CommandLine.Line

/-!
# Running the demonstration program

The pieces of a line are put together again, and its tokens or its report against the sample
program are printed.
-/

namespace CommandLine.Demo

variable {β : Type}

/-- Whether a flag was given as true. -/
def isOn (report : Report β) (option : SymbolId) : Evaluating Bool := do
  return ((← report.valueOf option).bind Value.bool?).getD false

/-- The values of an argument and the unmatched tokens in their order on the command line. -/
def gatherParts (report : Report β) (line : SymbolId) : List Bound :=
  let unmatched : List Bound := report.unmatched.map fun token => ⟨token.text, token.position⟩
  ((report.binding? line).elim [] (·.values) ++ unmatched).mergeSort
    fun a b => decide (a.position ≤ b.position)

/-- The line that the pieces on the command line make. -/
def gatherLine (report : Report β) (line : SymbolId) : String :=
  " ".intercalate ((gatherParts report line).map (·.text))

/-- Parses a line against the sample program and prints the outcome; errors make the code 1. -/
def performParse (line : String) (asJson : Bool) : Writing Outcome := do
  match (sampleApp id : Except TreeError (CommandTree StandardAction)) with
  | .error error => return .failure error.message
  | .ok tree =>
      let tokens := Line.split line
      Console.record ((Setting.of tree {}).events CommandTree.root tokens)
      match tree.parse {} CommandTree.root tokens with
      | .error _ => return .panic .running none
      | .ok parsed =>
          (parseLines parsed asJson).forM Console.printLine
          return .exit (if parsed.errors.isEmpty then 0 else 1)

/-- What a task of the program does. -/
def Task.perform (task : Task) (report : Report β) : Writing Outcome := do
  match task with
  | .overview =>
      Console.print (← Console.evaluating (HelpStyle.render {} report.tree report.terminal))
      return .exit 0
  | .split line json =>
      let asJson ← Console.evaluating (isOn report json)
      (tokenLines (Line.split (gatherLine report line)) asJson).forM Console.printLine
      return .exit 0
  | .parse line json =>
      performParse (gatherLine report line) (← Console.evaluating (isOn report json))

/-- What an action of the program does. -/
def Body.perform (body : Body) (report : Report β) (cancelled : Bool) : Writing Outcome :=
  match body with
  | .standard action => action.perform report cancelled
  | .task work => work.perform report

/-- What a run of the program leaves behind. -/
structure Run where
  code : Int32
  output : String
  errors : String
  deriving DecidableEq

/-- Runs the program on the arguments it was started with. -/
def run (arguments : List String) : Except TreeError Run := do
  let tree ← (commandTree id : Except TreeError (CommandTree Body))
  match tree.parse {} CommandTree.root arguments with
  | .error _ => return { code := 1, output := "", errors := "" }
  | .ok report =>
      let (invocation, console) := (report.invoke Body.perform false).run {}
      return { code := invocation.code, output := console.output, errors := console.errors }

/-- The exit status of a code, its low byte. -/
def exitStatus (code : Int32) : UInt8 := UInt8.ofNat (code.toInt % 256).toNat

end CommandLine.Demo
