import CommandLine.Text.CaseTable

/-!
# Lower-case text

Texts are lowered character by character with the mapping of `CaseTable`. Two characters need
more than one table row: the dotted capital I becomes two characters, and a capital sigma takes
its final form where it ends a word, that is, after a cased character and not before one, with
the characters that case decisions ignore passed over on both sides.
-/

namespace CommandLine.Text

/-- Whether a character lies in one of the given runs of code points. -/
def inRuns (runs : List (Nat × Nat)) (c : Char) : Bool :=
  runs.any fun (first, last) => decide (first ≤ c.toNat) && decide (c.toNat ≤ last)

/-- Whether the nearest character that is not passed over has a case. -/
def meetsCased (chars : List Char) : Bool :=
  match chars.dropWhile (inRuns CaseTable.ignorableRuns) with
  | [] => false
  | c :: _ => inRuns CaseTable.casedRuns c

/-- The lower-case form of one character, its surroundings left aside. -/
def lowerChar (c : Char) : List Char :=
  if c = 'İ' then ['i', '\u0307']
  else
    let row := CaseTable.lowerRows.find? fun (first, last, step, _) =>
      decide (first ≤ c.toNat) && decide (c.toNat ≤ last) && (c.toNat - first) % step == 0
    match row with
    | some (_, _, _, shift) => [Char.ofNat ((c.toNat : Int) + shift).toNat]
    | none => [c]

/-- The lower-case form of the rest of a text, where `before` is what was read, nearest first. -/
def lowerFrom (before : List Char) : List Char → List Char
  | [] => []
  | c :: rest =>
      (if c = 'Σ' then [if meetsCased before && !meetsCased rest then 'ς' else 'σ']
        else lowerChar c) ++ lowerFrom (c :: before) rest

/-- A text in lower case. -/
def lower (text : String) : String := String.ofList (lowerFrom [] text.toList)

end CommandLine.Text
