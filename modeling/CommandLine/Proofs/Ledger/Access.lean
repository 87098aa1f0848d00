import CommandLine.Proofs.CommandTree.Ancestors
import CommandLine.Proofs.Report.Genuine
import CommandLine.Suggestion

/-!
# Access that can miss

The questions that a tree is asked have answers for every number. Where a symbol has to be there, it
can also be fetched from its place in the array, and then a number that no symbol has is a mishap.
So is a way up from parent to parent that does not end, and whatever else a program takes for
granted.

Here the questions that reading asks are asked with such access. In a well-formed tree all symbols
that a symbol lists are there and the way up gets shorter, so nothing is missed, and the answers are
the same.
-/

namespace CommandLine

/-- What happens where something is taken for granted that is not there. -/
inductive Mishap where
  /-- There is no symbol with the number. -/
  | noSymbol (id : SymbolId)
  /-- The way up from a symbol does not end. -/
  | noEnd (id : SymbolId)
  /-- A text is cut inside of a character or behind its end. -/
  | noBoundary (offset : ℕ)
  /-- A list of matched options has no such place. -/
  | noPlace (place : ℕ)
  /-- A list of commands is empty. -/
  | noCommand
  deriving DecidableEq, Repr

/-! ## Traversals without mishap -/

namespace Sequence

variable {A B E : Type}

/-- What follows a success goes on from its result. -/
theorem ok_bind (value : A) (next : A → Except E B) : (Except.ok value >>= next) = next value :=
  rfl

/-- A traversal in which each member succeeds gives their results. -/
theorem mapM_eq_ok {visit : A → Except E B} {make : A → B} {values : List A}
    (h : ∀ value ∈ values, visit value = .ok (make value)) :
    values.mapM visit = .ok (values.map make) := by
  induction values with
  | nil => rfl
  | cons value rest ih =>
    rw [List.forall_mem_cons] at h
    rw [List.mapM_cons, h.1, ih h.2]
    rfl

/-- A fold in which each step succeeds gives the fold of the results. -/
theorem foldlM_eq_ok {visit : B → A → Except E B} {step : B → A → B} {values : List A}
    (h : ∀ value ∈ values, ∀ before, visit before value = .ok (step before value)) (before : B) :
    values.foldlM visit before = .ok (values.foldl step before) := by
  induction values generalizing before with
  | nil => rfl
  | cons value rest ih =>
    rw [List.forall_mem_cons] at h
    rw [List.foldlM_cons, h.1]
    exact ih h.2 (step before value)

/-- A search in which each test succeeds finds what passes its test first. -/
theorem findM?_eq_ok {test : A → Except E Bool} {p : A → Bool} {values : List A}
    (h : ∀ value ∈ values, test value = .ok (p value)) :
    values.findM? test = .ok (values.find? p) := by
  induction values with
  | nil => rfl
  | cons value rest ih =>
    rw [List.forall_mem_cons] at h
    rw [List.findM?, h.1, List.find?_cons]
    cases p value with
    | true => rfl
    | false => exact ih h.2

end Sequence

/-! ## Questions with access that can miss -/

namespace CommandTree

variable {β : Type}

/-- Passes if there is a symbol with the number. -/
def demand (tree : CommandTree β) (id : SymbolId) : Except Mishap Unit :=
  if (tree.symbol? id).isSome then return () else throw (.noSymbol id)

/-- The parent of a symbol, its parent, and so on, if the way up ends in fewer than `steps` steps. -/
def climb (tree : CommandTree β) (steps : ℕ) (id : SymbolId) : Except Mishap (List SymbolId) :=
  match steps with
  | 0 => throw (.noEnd id)
  | steps + 1 =>
      match tree.parent? id with
      | none => return []
      | some parent => return parent :: (← tree.climb steps parent)

/-- The options in scope at a command; each that is declared is fetched for its aliases. -/
def fetchScope (tree : CommandTree β) (command : SymbolId) : Except Mishap Scope := do
  -- A way up that meets no symbol twice has fewer steps than there are symbols.
  let ancestors ← tree.climb (tree.size + 1) command
  let declared := ancestors.reverse.flatMap (fun id => (tree.options id).filter tree.isInherited)
    ++ tree.options command
  declared.foldlM (fun scope option => do
    tree.demand option
    return scope.register option (tree.aliases option)) {}

/-- The first subcommand that answers to a text; each that is asked is fetched. -/
def fetchSubcommand (tree : CommandTree β) (command : SymbolId) (text : String) :
    Except Mishap (Option SymbolId) :=
  (tree.commands command).findM? fun id => do
    tree.demand id
    return tree.hasAlias id text

/-- The texts that would be recognized; each visible subcommand is fetched for its aliases. -/
def fetchCandidates (tree : CommandTree β) (scope : Scope) (command : SymbolId) :
    Except Mishap (List String) := do
  let ofCommands ← ((tree.commands command).filter (!tree.isHidden ·)).mapM fun id => do
    tree.demand id
    return tree.aliases id
  return ofCommands.flatten ++ (scope.entries.filter (!tree.isHidden ·.2)).map (·.1)

variable {tree : CommandTree β} {id command : SymbolId}

/-- A symbol that is there can be fetched. -/
theorem demand_eq_ok (h : (tree.symbol? id).isSome) : tree.demand id = .ok () := by
  rw [demand, if_pos h]
  rfl

/-- An option is a symbol. -/
theorem isSome_symbol?_of_option? (h : (tree.option? id).isSome) : (tree.symbol? id).isSome := by
  unfold option? at h
  cases hsymbol : tree.symbol? id with
  | none => simp [hsymbol] at h
  | some symbol => rfl

/-- An argument is a symbol. -/
theorem isSome_symbol?_of_argument? (h : (tree.argument? id).isSome) :
    (tree.symbol? id).isSome := by
  unfold argument? at h
  cases hsymbol : tree.symbol? id with
  | none => simp [hsymbol] at h
  | some symbol => rfl

/-- A number that no symbol has is no child. -/
theorem parent?_eq_none (h : tree.size ≤ id) : tree.parent? id = none := by
  have hnone : tree.symbol? id = none := by
    rw [← Option.not_isSome_iff_eq_none, isSome_symbol?_iff]
    exact Nat.not_lt.mpr h
  rw [parent?, hnone]
  rfl

namespace WellFormed

/-- The way up from a small number takes few steps. -/
theorem climb_eq_ok (h : tree.WellFormed) {steps : ℕ} (hid : id < steps) :
    tree.climb steps id = .ok (tree.ancestors id) := by
  induction steps generalizing id with
  | zero => exact absurd hid (Nat.not_lt_zero id)
  | succ steps ih =>
    rw [climb]
    cases hparent : tree.parent? id with
    | none =>
      rw [ancestors_of_parent?_eq_none hparent]
      rfl
    | some parent =>
      have hlt : parent < id := h.parent_lt hparent
      have hsteps : parent < steps := Nat.lt_of_lt_of_le hlt (Nat.lt_succ_iff.mp hid)
      rw [ancestors_of_parent? hparent hlt]
      simp only [ih hsteps]
      rfl

/-- The way up from any number ends. -/
theorem climb_size_eq_ok (h : tree.WellFormed) (id : SymbolId) :
    tree.climb (tree.size + 1) id = .ok (tree.ancestors id) := by
  by_cases hid : id < tree.size
  · exact h.climb_eq_ok (Nat.lt_succ_of_lt hid)
  · have hparent := parent?_eq_none (Nat.not_lt.mp hid)
    rw [climb, hparent, ancestors_of_parent?_eq_none hparent]
    rfl

/-- The subcommands of a command are there. -/
theorem isSome_of_mem_commands (h : tree.WellFormed) (hmem : id ∈ tree.commands command) :
    (tree.symbol? id).isSome :=
  isSome_symbol?_of_command? (h.mem_commands.mp hmem).1

/-- The scope of a command is put together without mishap. -/
theorem fetchScope_eq_ok (h : tree.WellFormed) (command : SymbolId) :
    tree.fetchScope command = .ok (tree.scope command) := by
  rw [fetchScope, h.climb_size_eq_ok]
  refine Sequence.foldlM_eq_ok ?_ _
  intro option hmem scope
  rw [demand_eq_ok (isSome_symbol?_of_option? (h.isSome_of_mem_declaredOptions hmem))]
  rfl

/-- A subcommand is found without mishap. -/
theorem fetchSubcommand_eq_ok (h : tree.WellFormed) (command : SymbolId) (text : String) :
    tree.fetchSubcommand command text = .ok (tree.subcommand? command text) := by
  refine Sequence.findM?_eq_ok ?_
  intro id hmem
  rw [demand_eq_ok (h.isSome_of_mem_commands hmem)]
  rfl

/-- The texts that would be recognized are collected without mishap. -/
theorem fetchCandidates_eq_ok (h : tree.WellFormed) (scope : Scope) (command : SymbolId) :
    tree.fetchCandidates scope command = .ok (tree.candidates scope command) := by
  have hcommands : ((tree.commands command).filter (!tree.isHidden ·)).mapM (fun id => do
        tree.demand id
        return tree.aliases id) =
      .ok (((tree.commands command).filter (!tree.isHidden ·)).map tree.aliases) := by
    refine Sequence.mapM_eq_ok ?_
    intro id hmem
    rw [demand_eq_ok (h.isSome_of_mem_commands (List.mem_of_mem_filter hmem))]
    rfl
  rw [fetchCandidates, hcommands, candidates, List.flatMap_def]
  rfl

end WellFormed

end CommandTree

end CommandLine
