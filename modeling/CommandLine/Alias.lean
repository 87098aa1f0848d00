import CommandLine.Text.Blank

/-!
# Aliases

An alias is a text that a command or an option answers to. The aliases of one symbol form a set
that remembers the order in which they were added; the longest of them gives an option its name.
-/

namespace CommandLine

namespace Alias

/-- What may stand in front of an option's name, longest first. -/
def dashes : List String := ["--", "-", "/"]

/--
The alias without the first of `dashes` that it starts with, where something remains after it;
so a lone dash keeps itself and two dashes keep one.
-/
def stripDash (text : String) : String :=
  let rest? (dash : String) : Option String :=
    if dash.toList.isPrefixOf text.toList ∧ dash.length < text.length then
      some (String.ofList (text.toList.drop dash.length))
    else none
  (dashes.findSome? rest?).getD text

/-- A text can be an alias if it is not empty and holds no blank. -/
def isWellFormed (text : String) : Bool :=
  !text.toList.isEmpty && !text.toList.any Text.isBlank

end Alias

/-- Distinct aliases in the order in which they were added. -/
structure AliasSet where
  toList : List String
  nodup : toList.Nodup := by simp

namespace AliasSet

/-- The set without aliases. -/
def empty : AliasSet where
  toList := []

instance : Membership String AliasSet := ⟨fun set text => text ∈ set.toList⟩

instance (text : String) (set : AliasSet) : Decidable (text ∈ set) :=
  inferInstanceAs (Decidable (text ∈ set.toList))

/-- The set with an alias added at the end; one that is already there stays in its place. -/
def insert (set : AliasSet) (text : String) : AliasSet :=
  if h : text ∈ set.toList then set
  else
    { toList := set.toList ++ [text]
      nodup := by
        refine List.nodup_append.2 ⟨set.nodup, by simp, ?_⟩
        rintro a ha b hb rfl
        exact h (List.mem_singleton.1 hb ▸ ha) }

/-- The set without an alias. -/
def erase (set : AliasSet) (text : String) : AliasSet where
  toList := set.toList.filter (· != text)
  nodup := List.Pairwise.filter _ set.nodup

/-- The set of the given aliases, each at its first place. -/
def ofList (aliases : List String) : AliasSet := aliases.foldl insert empty

/-- The longer of the best alias so far and another one; on a tie the best stays. -/
def longer (best : Option String) (text : String) : Option String :=
  match best with
  | none => some text
  | some kept => if kept.utf8ByteSize < text.utf8ByteSize then some text else some kept

/-- The longest alias in bytes, the first of them on a tie. -/
def longest? (set : AliasSet) : Option String := set.toList.foldl longer none

/-- Membership is membership in the list. -/
theorem mem_def {set : AliasSet} {text : String} : text ∈ set ↔ text ∈ set.toList := Iff.rfl

/-- What a set holds after an insertion. -/
@[simp] theorem mem_insert {set : AliasSet} {text other : String} :
    other ∈ set.insert text ↔ other ∈ set ∨ other = text := by
  simp only [insert, mem_def]
  split
  · constructor
    · exact Or.inl
    · rintro (h | rfl) <;> assumption
  · simp

/-- What a set holds after an erasure. -/
@[simp] theorem mem_erase {set : AliasSet} {text other : String} :
    other ∈ set.erase text ↔ other ∈ set ∧ other ≠ text := by
  simp [erase, mem_def]

end CommandLine.AliasSet
