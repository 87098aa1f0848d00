import CommandLine.Demo.Program

/-!
# The demonstration program as a command

Nothing is decided here: the program runs on the arguments, and what it left behind is printed.
-/

/-- Runs the demonstration program. -/
def main (arguments : List String) : IO UInt32 := do
  match CommandLine.Demo.run arguments with
  | .error error =>
      IO.eprintln ("[cmdtree][error] " ++ error.message)
      return 1
  | .ok outcome =>
      IO.print outcome.output
      IO.eprint outcome.errors
      return (CommandLine.Demo.exitStatus outcome.code).toUInt32
