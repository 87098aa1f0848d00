import CommandLine.Help.Action
import CommandLine.CommandTree.Build

/-!
# A sample program

The program that the demonstration checks command lines against:

```text
app [--verbose]
  build <target> [--jobs <n>] [--release] [--feature <name>...]
  serve --port <n> [--host <addr>]
  config
    get <key>
    set <key> <value>
```
-/

namespace CommandLine.Demo

/-- Rejects a number that no socket has. -/
def checkSocket : Validator := fun candidate =>
  candidate.value.uint?.bind fun number =>
    if number = 0 ∨ 65535 < number then
      some ("Port " ++ toString number.toNat ++ " is out of range.")
    else none

/-- The tree of the sample program. -/
def sampleApp {β : Type} (embed : StandardAction → β) : Except TreeError (CommandTree β) :=
  Build.run { name := "app", description := some "Sample application" } do
    let root := CommandTree.root
    let _ ← Build.inheritedOption root
      { aliases := ["--verbose", "-v"], description := some "Verbose output" }
    let _ ← Build.inheritedOption root (.help embed {})
    let build ← Build.command root
      { name := "build", aliases := ["b"], description := some "Build a target" }
    let _ ← Build.argument build { name := "target" }
    let _ ← Build.option build
      { aliases := ["--jobs", "-j"]
        argument := some { name := "value", type := .uint }
        description := some "Parallel jobs" }
    let _ ← Build.option build
      { aliases := ["--release", "-r"], description := some "Optimized build" }
    let _ ← Build.option build
      { aliases := ["--feature", "-F"]
        argument := some { name := "name", type := .list .string, arity := some .oneOrMore }
        description := some "Enable features" }
    let serve ← Build.command root { name := "serve", description := some "Run a server" }
    let _ ← Build.option serve
      { aliases := ["--port", "-p"]
        argument := some { name := "value", type := .uint }
        required := true
        validators := [checkSocket] }
    let _ ← Build.option serve
      { aliases := ["--host"]
        argument := some { name := "addr", default := some fun _ => .string "127.0.0.1" } }
    let config ← Build.command root { name := "config", description := some "Edit settings" }
    let get ← Build.command config { name := "get" }
    let _ ← Build.argument get { name := "key" }
    let set ← Build.command config { name := "set" }
    let _ ← Build.argument set { name := "key" }
    let _ ← Build.argument set { name := "value" }

end CommandLine.Demo
