import CommandLine.CommandTree.Clash
import CommandLine.Proofs.Scope.NearestFirst
import Mathlib.Data.List.Nodup

/-!
# Trees without clashes

A tree passes validation exactly when under every command all aliases of the subcommands and of
the options that the command keeps to itself are distinct, so that no text stands for two of them.
In such a tree a subcommand never hides an option of its own command, unless the option is one
that is passed on.
-/

namespace CommandLine

/-- No text is found to be repeated exactly when the texts are distinct, and new as well. -/
theorem firstRepeated_eq_none_iff {seen texts : List String} :
    firstRepeated seen texts = none ↔ texts.Nodup ∧ ∀ text ∈ texts, text ∉ seen := by
  induction texts generalizing seen with
  | nil => simp [firstRepeated]
  | cons text rest ih =>
    by_cases hseen : text ∈ seen
    · simp [firstRepeated, hseen]
    · rw [firstRepeated, if_neg hseen, ih, List.nodup_cons, List.forall_mem_cons]
      simp only [List.mem_cons, not_or, forall_and]
      constructor
      · rintro ⟨hrest, hne, hnew⟩
        exact ⟨⟨fun hmem => hne text hmem rfl, hrest⟩, hseen, hnew⟩
      · rintro ⟨⟨hmem, hrest⟩, -, hnew⟩
        exact ⟨hrest, fun other hother heq => hmem (heq ▸ hother), hnew⟩

namespace CommandTree

variable {β : Type} {tree : CommandTree β} {command option : SymbolId} {text : String}

/-- No alias clashes under a command exactly when the aliases of its siblings are distinct. -/
theorem clash?_eq_none_iff :
    tree.clash? command = none ↔ ((tree.siblings command).flatMap tree.aliases).Nodup := by
  simp [clash?, firstRepeated_eq_none_iff]

/-- A number that no symbol has stands for no siblings. -/
theorem siblings_of_size_le (h : tree.size ≤ command) : tree.siblings command = [] := by
  have hcommands : tree.commands command = [] := by
    rw [← (listed_eq tree command).1]
    exact listed_of_size_le .command h
  have hoptions : tree.options command = [] := by
    rw [← (listed_eq tree command).2.1]
    exact listed_of_size_le .option h
  rw [siblings, hcommands, hoptions]
  rfl

/-- A tree passes validation exactly when no alias clashes under any of its symbols. -/
theorem validate_eq_ok_iff_clash? :
    tree.validate = .ok () ↔ ∀ command < tree.size, tree.clash? command = none := by
  simp only [validate]
  generalize hfound : List.findSome? _ (List.range tree.size) = found
  cases found with
  | none =>
    rw [List.findSome?_eq_none_iff] at hfound
    simp only [true_iff]
    intro command hcommand
    simpa using hfound command (List.mem_range.mpr hcommand)
  | some error =>
    obtain ⟨command, hcommand, hclash⟩ := List.exists_of_findSome?_eq_some hfound
    simp only [reduceCtorEq, false_iff]
    intro hnone
    simp [hnone command (List.mem_range.mp hcommand)] at hclash

/-- A tree passes validation exactly when the aliases of the siblings under each command, taken
together, are distinct. -/
theorem validate_eq_ok_iff : tree.validate = .ok () ↔
    ∀ command, ((tree.siblings command).flatMap tree.aliases).Nodup := by
  rw [validate_eq_ok_iff_clash?]
  constructor
  · intro h command
    by_cases hcommand : command < tree.size
    · exact clash?_eq_none_iff.mp (h command hcommand)
    · rw [siblings_of_size_le (Nat.le_of_not_lt hcommand)]
      exact List.nodup_nil
  · exact fun h command _ => clash?_eq_none_iff.mpr (h command)

/-- In a tree that passes validation, no subcommand answers to an alias of an option that its
command keeps to itself. -/
theorem subcommand?_eq_none_of_validate (h : tree.validate = .ok ())
    (hoption : option ∈ tree.options command) (hown : tree.isInherited option = false)
    (htext : text ∈ tree.aliases option) : tree.subcommand? command text = none := by
  have hdistinct := validate_eq_ok_iff.mp h command
  rw [siblings, List.flatMap_append, List.nodup_append] at hdistinct
  rw [subcommand?, List.find?_eq_none]
  intro subcommand hsubcommand hanswers
  rw [hasAlias_eq, decide_eq_true_eq] at hanswers
  have hkept : option ∈ (tree.options command).filter (!tree.isInherited ·) := by
    simpa [hoption] using hown
  exact hdistinct.2.2 text (List.mem_flatMap.mpr ⟨subcommand, hsubcommand, hanswers⟩)
    text (List.mem_flatMap.mpr ⟨option, hkept, htext⟩) rfl

end CommandTree

end CommandLine
