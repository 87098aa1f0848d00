import CommandLine.CommandTree

/-!
# Options in scope

At a command its own options can be given and those that it inherits. Their aliases are entered
into one table, outermost command first and in order of declaration, and an alias that is entered
again moves to the later option. So a nearer declaration wins, alias by alias: the other aliases
of an option that lost one stay with it.

Nothing depends on the order of the table's entries; lists of options follow the order of
declaration, and lists of aliases are sorted.
-/

namespace CommandLine

/-- The options at a command in order of declaration, and the option behind each alias. -/
structure Scope where
  order : List SymbolId := []
  entries : List (String × SymbolId) := []

namespace Scope

/-- The table with an alias entered for an option, whatever option it had. -/
def enter (option : SymbolId) (entries : List (String × SymbolId)) (text : String) :
    List (String × SymbolId) :=
  (text, option) :: entries.filter (·.1 != text)

/-- The scope with an option declared after all others. -/
def register (scope : Scope) (option : SymbolId) (aliases : List String) : Scope where
  order := if option ∈ scope.order then scope.order else scope.order ++ [option]
  entries := aliases.foldl (enter option) scope.entries

/-- The option that an alias stands for. -/
def resolve (scope : Scope) (text : String) : Option SymbolId := scope.entries.lookup text

/-- The options that some alias stands for, in order of declaration. -/
def options (scope : Scope) : List SymbolId :=
  scope.order.filter fun option => scope.entries.any (·.2 == option)

/-- The aliases that stand for an option, sorted. -/
def aliasesOf (scope : Scope) (option : SymbolId) : List String :=
  ((scope.entries.filter (·.2 == option)).map (·.1)).mergeSort fun a b => decide (a ≤ b)

/-- All aliases with their options, sorted. -/
def sortedEntries (scope : Scope) : List (String × SymbolId) :=
  scope.entries.mergeSort fun a b => decide (a.1 ≤ b.1)

/-- After an alias is entered it stands for its new option, and the others are as before. -/
theorem lookup_enter (option : SymbolId) (entries : List (String × SymbolId))
    (text other : String) :
    (enter option entries text).lookup other =
      if other = text then some option else entries.lookup other := by
  by_cases h : other = text
  · simp [enter, h]
  · have hbeq : (other == text) = false := by simpa using h
    simp only [enter, List.lookup_cons, hbeq, if_neg h]
    induction entries with
    | nil => rfl
    | cons entry entries ih =>
      obtain ⟨key, value⟩ := entry
      by_cases hkey : key = text
      · have hne : (other == key) = false := by simpa [hkey] using h
        rw [List.filter_cons_of_neg (by simp [hkey]), ih, List.lookup_cons, hne]
      · rw [List.filter_cons_of_pos (by simpa using hkey), List.lookup_cons, List.lookup_cons, ih]

end Scope

namespace CommandTree

variable {β : Type}

/-- The options that can be given at a command, outermost declaring command first. -/
def declaredOptions (tree : CommandTree β) (command : SymbolId) : List SymbolId :=
  (tree.ancestors command).reverse.flatMap (fun id => (tree.options id).filter tree.isInherited)
    ++ tree.options command

/-- The options in scope at a command. -/
def scope (tree : CommandTree β) (command : SymbolId) : Scope :=
  (tree.declaredOptions command).foldl
    (fun scope option => scope.register option (tree.aliases option)) {}

end CommandLine.CommandTree
