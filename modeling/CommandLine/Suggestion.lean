import CommandLine.Scope
import CommandLine.Text.Distance
import CommandLine.Text.Lower

/-!
# Suggestions

For a token that matches nothing, the nearest text that would have been recognized is suggested:
at most two edits away with letter case left aside, but not the same. Of several nearest texts the
smallest is taken, so the order in which they are tried does not matter.
-/

namespace CommandLine

namespace Suggestion

/-- The greatest distance at which a text is still suggested. -/
def reach : Nat := 2

/-- The distance between two texts with letter case left aside. -/
def apart (text candidate : String) : Nat := Text.distance (Text.lower text) (Text.lower candidate)

/-- The better of the best candidate so far, with its distance, and another one. -/
def better (text : String) (best : Option (String × Nat)) (candidate : String) :
    Option (String × Nat) :=
  let d := apart text candidate
  if d = 0 ∨ reach < d then best
  else
    match best with
    | none => some (candidate, d)
    | some (kept, nearest) =>
        if nearest < d ∨ (d = nearest ∧ kept ≤ candidate) then some (kept, nearest)
        else some (candidate, d)

/-- The candidate to suggest for a text, if one is near enough. -/
def nearest (text : String) (candidates : List String) : Option String :=
  (candidates.foldl (better text) none).map (·.1)

end Suggestion

/--
The texts that would be recognized at a command: the aliases of its visible subcommands and those
that stand for a visible option.
-/
def CommandTree.candidates {β : Type} (tree : CommandTree β) (scope : Scope)
    (command : SymbolId) : List String :=
  ((tree.commands command).filter (!tree.isHidden ·)).flatMap tree.aliases
    ++ (scope.entries.filter (!tree.isHidden ·.2)).map (·.1)

end CommandLine
