import CommandLine.Help.Action
import CommandLine.CommandTree.Build

/-!
# The demonstration program

The program shows the library at work on a command line of its own. It takes `--json`,
`--verbose`, `--help` and `--version`, and has two subcommands: `split` prints the tokens of a raw
line, and `parse` parses a line against the sample program.

The values after a subcommand are joined with spaces into one raw line, so it makes no difference
how the line is distributed over arguments. After `--`, aliases of the program's own options
belong to the line too.
-/

namespace CommandLine.Demo

/-- What the program does besides help and version; `line` and `json` are symbols of its tree. -/
inductive Task where
  | overview
  | split (line json : SymbolId)
  | parse (line json : SymbolId)
  deriving DecidableEq, Repr

/-- The actions of the program. -/
inductive Body where
  | standard (action : StandardAction)
  | task (task : Task)

/-- The version of the program. -/
def version : String := "0.1.0"

/-- The argument that takes a line in pieces. -/
def lineArgument : ArgumentDecl where
  name := "line"
  type := .list .string
  arity := some .zeroOrMore
  description := some "Command line text"

/-- The tree of the program, whose actions are embedded among others. -/
def commandTree {β : Type} (embed : Body → β) : Except TreeError (CommandTree β) :=
  let standard (action : StandardAction) : β := embed (.standard action)
  let task (task : Task) : Action β := { body := embed (.task task) }
  Build.run
    { name := "cmdtree"
      description := some "Split and parse command lines"
      action := some (task .overview) } do
    let root := CommandTree.root
    let json ← Build.inheritedOption root
      { aliases := ["--json"], description := some "Print machine-readable JSON" }
    let _ ← Build.inheritedOption root
      { aliases := ["--verbose", "-v"], description := some "Log parse decisions to stderr" }
    let _ ← Build.inheritedOption root (.help standard {})
    let _ ← Build.option root (.version standard version)
    let split ← Build.command root
      { name := "split"
        aliases := ["s"]
        description := some "Print the tokens of a raw command line"
        strict := false }
    let splitLine ← Build.argument split lineArgument
    Build.action split (task (.split splitLine json))
    let parse ← Build.command root
      { name := "parse"
        description := some "Parse a command line against the sample tree"
        strict := false }
    let parseLine ← Build.argument parse lineArgument
    Build.action parse (task (.parse parseLine json))

end CommandLine.Demo
