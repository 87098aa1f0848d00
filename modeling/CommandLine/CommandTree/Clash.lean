import CommandLine.CommandTree.Error
import CommandLine.CommandTree

/-!
# Clashing aliases

The subcommands and the options that only one command has must not share an alias. An inherited
option may: on its own command the option declared last wins, and below it the nearer one.
-/

namespace CommandLine

/-- The first text of a list that occurs before its place, `seen` being what came earlier still. -/
def firstRepeated (seen : List String) : List String → Option String
  | [] => none
  | text :: texts => if text ∈ seen then some text else firstRepeated (text :: seen) texts

namespace CommandTree

variable {β : Type}

/-- The subcommands of a command and the options that it does not pass on. -/
def siblings (tree : CommandTree β) (command : SymbolId) : List SymbolId :=
  tree.commands command ++ (tree.options command).filter (!tree.isInherited ·)

/-- The first alias that two siblings under a command share. -/
def clash? (tree : CommandTree β) (command : SymbolId) : Option String :=
  firstRepeated [] ((tree.siblings command).flatMap tree.aliases)

/-- Refuses a tree in which siblings share an alias, and names the first such command. -/
def validate (tree : CommandTree β) : Except TreeError Unit :=
  let clashAt? (command : SymbolId) : Option TreeError :=
    (tree.clash? command).map (.duplicateAlias (tree.name command) ·)
  match (List.range tree.size).findSome? clashAt? with
  | some error => .error error
  | none => .ok ()

end CommandLine.CommandTree
