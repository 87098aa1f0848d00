import CommandLine.Help
import CommandLine.Proofs.Scope.NearestFirst
import CommandLine.Proofs.Suggestion.Nearest
import Mathlib.Data.List.Sort

/-!
# Any order of a scope's entries

The table of a scope may list its entries in any order, and two tables for one command in two. A
table has one entry for each alias, so looking an alias up finds the same; options come in the order
in which they were declared, and aliases are sorted; and of several candidates the same one is
suggested. Help texts are made of these views, so they are the same as well.
-/

namespace CommandLine

namespace Scope

/-- Two scopes with the same options in the same order, and the same entries in any order. -/
structure Reordered (first second : Scope) : Prop where
  order : second.order = first.order
  entries : second.entries.Perm first.entries

/-- Two scopes that look alike: all that they say of texts and of options is the same. -/
structure Alike (first second : Scope) : Prop where
  resolve : ∀ text, second.resolve text = first.resolve text
  options : second.options = first.options
  aliasesOf : ∀ option, second.aliasesOf option = first.aliasesOf option

variable {first second : Scope}

/-- Scopes with the same order look alike if every text stands for the same in them. -/
theorem alike_of_resolve (hfirst : Keyed first.entries) (hsecond : Keyed second.entries)
    (horder : second.order = first.order)
    (hresolve : ∀ text, second.resolve text = first.resolve text) : first.Alike second where
  resolve := hresolve
  options := by
    rw [options, options, horder]
    refine List.filter_congr fun option hoption => ?_
    have hmem : option ∈ first.options ↔ _ := mem_options_iff hfirst
    have hother : option ∈ second.options ↔ _ := mem_options_iff hsecond
    simp only [options, List.mem_filter, horder, hoption, true_and, hresolve] at hmem hother
    rw [Bool.eq_iff_iff, hmem, hother]
  aliasesOf := by
    intro option
    apply (pairwise_aliasesOf hsecond option).eq_of_mem_iff (pairwise_aliasesOf hfirst option)
    intro text
    rw [mem_aliasesOf_iff hsecond, mem_aliasesOf_iff hfirst, hresolve]

namespace Reordered

/-- A scope may be listed as it is. -/
theorem refl (scope : Scope) : scope.Reordered scope := ⟨rfl, .refl _⟩

/-- Two arrangements of one scope are arrangements of each other. -/
theorem of_common {scope : Scope} (hfirst : scope.Reordered first)
    (hsecond : scope.Reordered second) : first.Reordered second :=
  ⟨hsecond.order.trans hfirst.order.symm, hsecond.entries.trans hfirst.entries.symm⟩

/-- In any order there is one entry for each alias. -/
theorem keyed (h : first.Reordered second) (hkeyed : Keyed first.entries) : Keyed second.entries :=
  (h.entries.map Prod.fst).nodup_iff.mpr hkeyed

/-- An alias stands for the same option. -/
theorem resolve_eq (h : first.Reordered second) (hkeyed : Keyed first.entries) (text : String) :
    second.resolve text = first.resolve text := by
  refine Option.ext fun option => ?_
  rw [← (h.keyed hkeyed).mem_iff, ← hkeyed.mem_iff]
  exact h.entries.mem_iff

/-- In any order of its entries a scope looks the same. -/
theorem alike (h : first.Reordered second) (hkeyed : Keyed first.entries) : first.Alike second :=
  alike_of_resolve hkeyed (h.keyed hkeyed) h.order (h.resolve_eq hkeyed)

/-- The same text is suggested, whatever the order in which the candidates are tried. -/
theorem nearest_candidates {β : Type} (h : first.Reordered second) (tree : CommandTree β)
    (command : SymbolId) (text : String) :
    Suggestion.nearest text (tree.candidates second command) =
      Suggestion.nearest text (tree.candidates first command) := by
  refine Suggestion.nearest_congr (fun candidate => ?_) text
  exact (((h.entries.filter _).map _).append_left _).mem_iff

end Reordered

end Scope

/-! ## Help texts -/

namespace HelpStyle

variable {β : Type} {first second : Scope}

/-- The usage line is drawn from what a scope says. -/
theorem usageIn_congr (h : first.Alike second) (tree : CommandTree β) (id : SymbolId) :
    usageIn tree second id = usageIn tree first id := by
  rw [usageIn, usageIn, usageParts, usageParts, h.options]

/-- The rows of the options are drawn from what a scope says. -/
theorem optionRows_congr (h : first.Alike second) (style : HelpStyle) (tree : CommandTree β) :
    style.optionRows tree second = style.optionRows tree first := by
  have hrow : style.optionRow tree second = style.optionRow tree first := by
    funext option
    rw [optionRow, optionRow, listedAliases, listedAliases, h.aliasesOf]
  rw [optionRows, optionRows, h.options, hrow]

/-- The help text is drawn from what a scope says. -/
theorem renderIn_congr (h : first.Alike second) (style : HelpStyle) (tree : CommandTree β)
    (id : SymbolId) : style.renderIn tree second id = style.renderIn tree first id := by
  rw [renderIn, renderIn, usageIn_congr h, optionRows_congr h]

end HelpStyle

end CommandLine
