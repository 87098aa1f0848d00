/-!
# Edit distance

The least number of insertions, deletions and replacements of single characters that turn one
text into another. The distances from one text to every suffix of the other are kept as one row,
longest suffix first, and a character put in front of the first text turns its row into the next.
-/

namespace CommandLine.Text

/--
The row for `c` in front of a text, given the suffixes' text `target` and the row `below` of
the text itself. Each entry is the cheapest of dropping `c`, inserting the first target
character, and matching the two, which is free when they agree.
-/
def nextRow (c : Char) : (target : List Char) → (below : List Nat) → List Nat
  | d :: target, down :: diagonal :: below =>
      let row := nextRow c target (diagonal :: below)
      let right := row.headD 0
      let matched := if c = d then diagonal else diagonal + 1
      min matched (min (down + 1) (right + 1)) :: row
  | _, below => below.map (· + 1)

/-- The distances from a text to every suffix of `target`, longest suffix first. -/
def distanceRow (target : List Char) : List Char → List Nat
  | [] => (List.range (target.length + 1)).reverse
  | c :: source => nextRow c target (distanceRow target source)

/-- The number of single-character edits between two texts. -/
def distance (source target : String) : Nat :=
  (distanceRow target.toList source.toList).headD 0

end CommandLine.Text
