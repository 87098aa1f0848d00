import CommandLine.Proofs.CommandTree.WellFormed
import CommandLine.Scope
import Mathlib.Data.List.Induction

/-!
# What a scope holds

Every entry of a scope's table is an alias of its option, and every option of a scope was declared
on the command or passed on to it. So whatever an alias resolves to can be looked up in the tree as
an option.
-/

namespace CommandLine

namespace Scope

/-- Entering an alias adds its own entry at most. -/
theorem mem_enter {option : SymbolId} {entries : List (String × SymbolId)} {text : String}
    {entry : String × SymbolId} (h : entry ∈ enter option entries text) :
    entry = (text, option) ∨ entry ∈ entries := by
  unfold enter at h
  rcases List.mem_cons.mp h with rfl | h
  · exact Or.inl rfl
  · exact Or.inr (List.mem_of_mem_filter h)

/-- Registering an option adds entries for its aliases at most. -/
theorem mem_entries_register {scope : Scope} {option : SymbolId} {aliases : List String}
    {entry : String × SymbolId} (h : entry ∈ (scope.register option aliases).entries) :
    (entry.1 ∈ aliases ∧ entry.2 = option) ∨ entry ∈ scope.entries := by
  unfold register at h
  dsimp only at h
  generalize scope.entries = entries at h ⊢
  induction aliases generalizing entries with
  | nil => exact Or.inr h
  | cons text rest ih =>
    rcases ih (enter option entries text) h with ⟨htext, hoption⟩ | h
    · exact Or.inl ⟨List.mem_cons_of_mem _ htext, hoption⟩
    · rcases mem_enter h with rfl | h
      · exact Or.inl ⟨List.mem_cons_self, rfl⟩
      · exact Or.inr h

/-- Registering an option adds that option at most. -/
theorem mem_order_register {scope : Scope} {option other : SymbolId} {aliases : List String} :
    other ∈ (scope.register option aliases).order ↔ other ∈ scope.order ∨ other = option := by
  unfold register
  dsimp only
  split
  · constructor
    · exact Or.inl
    · rintro (h | rfl) <;> assumption
  · simp

/-- An alias resolves to the option of some entry. -/
theorem mem_entries_of_resolve {scope : Scope} {text : String} {option : SymbolId}
    (h : scope.resolve text = some option) : (text, option) ∈ scope.entries := by
  obtain ⟨before, after, hentries, -⟩ := List.lookup_eq_some_iff.mp h
  rw [hentries]
  exact List.mem_append_right _ List.mem_cons_self

end Scope

namespace CommandTree

variable {β : Type} {tree : CommandTree β} {command option : SymbolId}

/-- The options of a scope are declared options, and its entries are their aliases. -/
theorem scope_spec (tree : CommandTree β) (command : SymbolId) :
    (∀ entry ∈ (tree.scope command).entries,
      entry.2 ∈ tree.declaredOptions command ∧ entry.1 ∈ tree.aliases entry.2) ∧
      ∀ other, other ∈ (tree.scope command).order ↔ other ∈ tree.declaredOptions command := by
  unfold scope
  induction tree.declaredOptions command using List.reverseRecOn with
  | nil => simp
  | append_singleton declared last ih =>
    obtain ⟨hentries, horder⟩ := ih
    rw [List.foldl_append]
    refine ⟨?_, ?_⟩
    · intro entry hentry
      rcases Scope.mem_entries_register hentry with ⟨htext, hlast⟩ | hentry
      · rw [hlast]
        exact ⟨List.mem_append_right _ List.mem_cons_self, hlast ▸ htext⟩
      · exact ⟨List.mem_append_left _ (hentries entry hentry).1, (hentries entry hentry).2⟩
    · intro other
      simp [Scope.mem_order_register, horder]

/-- A declared option is an option of the command itself, or an inherited one of an ancestor. -/
theorem mem_declaredOptions : option ∈ tree.declaredOptions command ↔
    option ∈ tree.options command ∨
      ∃ ancestor ∈ tree.ancestors command, option ∈ tree.options ancestor ∧ tree.isInherited option := by
  unfold declaredOptions
  simp only [List.mem_append, List.mem_flatMap, List.mem_reverse, List.mem_filter]
  exact or_comm

namespace WellFormed

/-- A declared option is an option. -/
theorem isSome_of_mem_declaredOptions (h : tree.WellFormed)
    (hoption : option ∈ tree.declaredOptions command) : (tree.option? option).isSome := by
  rcases mem_declaredOptions.mp hoption with hown | ⟨ancestor, -, hinherited, -⟩
  · exact (h.mem_options.mp hown).1
  · exact (h.mem_options.mp hinherited).1

/-- What an alias resolves to is an option. -/
theorem isSome_of_resolve (h : tree.WellFormed) {text : String}
    (hresolve : (tree.scope command).resolve text = some option) :
    (tree.option? option).isSome :=
  h.isSome_of_mem_declaredOptions
    ((tree.scope_spec command).1 _ (Scope.mem_entries_of_resolve hresolve)).1

/-- What a scope lists is an option. -/
theorem isSome_of_mem_scope_options (h : tree.WellFormed)
    (hoption : option ∈ (tree.scope command).options) : (tree.option? option).isSome :=
  h.isSome_of_mem_declaredOptions
    (((tree.scope_spec command).2 option).mp (List.mem_of_mem_filter hoption))

end WellFormed

end CommandLine.CommandTree
