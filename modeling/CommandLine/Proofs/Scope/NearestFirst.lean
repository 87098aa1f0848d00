import CommandLine.Proofs.CommandTree.Ancestors
import CommandLine.Proofs.Scope.Entries
import Mathlib.Data.List.Flatten
import Mathlib.Data.List.Nodup

/-!
# The nearest declaration wins

A scope is filled from the outermost command inwards, and an alias that is entered again moves to
the later option. What this amounts to is a search in the other direction: an alias stands for the
first option that has it among the command's own options, last declared first, then among those
that its parent passes on, then its grandparent, and so on up to the root. The ancestors are those met
on the way up from parent to parent.

The other views of a scope follow. The aliases of an option are the texts that the search finds it
by, and the options of a scope are those that the search finds at all.
-/

namespace CommandLine

namespace Scope

variable {scope : Scope} {option : SymbolId} {text : String}

/-! ## Tables with one entry for each alias -/

/-- A table with no more than one entry for an alias. -/
def Keyed (entries : List (String × SymbolId)) : Prop := (entries.map Prod.fst).Nodup

/-- In a table with one entry for each alias, every entry is found by its alias. -/
theorem Keyed.lookup_of_mem {entries : List (String × SymbolId)} (h : Keyed entries)
    (hmem : (text, option) ∈ entries) : entries.lookup text = some option := by
  obtain ⟨before, after, rfl⟩ := List.append_of_mem hmem
  have hbefore : before.lookup text = none := by
    rw [List.lookup_eq_none_iff]
    intro entry hentry
    rw [Keyed, List.map_append, List.map_cons, List.nodup_append] at h
    have hne := h.2.2 entry.1 (List.mem_map_of_mem hentry) text List.mem_cons_self
    simpa using hne.symm
  rw [List.lookup_append, hbefore, List.lookup_cons_self, Option.none_or]

/-- Entering an alias takes its old entry out, so it has one entry again. -/
theorem Keyed.enter {entries : List (String × SymbolId)} (h : Keyed entries) (option : SymbolId)
    (text : String) : Keyed (Scope.enter option entries text) := by
  have hrest : Keyed (entries.filter (·.1 != text)) := List.filter_sublist.map Prod.fst |>.nodup h
  refine List.nodup_cons.mpr ⟨?_, hrest⟩
  intro hmem
  obtain ⟨entry, hentry, heq⟩ := List.mem_map.mp hmem
  have hne := (List.mem_filter.mp hentry).2
  simp [heq] at hne

/-- Registering an option leaves one entry for each alias. -/
theorem Keyed.register (h : Keyed scope.entries) (option : SymbolId) (aliases : List String) :
    Keyed (scope.register option aliases).entries := by
  have hfold : ∀ entries, Keyed entries → Keyed (aliases.foldl (Scope.enter option) entries) := by
    induction aliases with
    | nil => exact fun entries hentries => hentries
    | cons text rest ih => exact fun entries hentries => ih _ (hentries.enter option text)
  exact hfold scope.entries h

/-- An option has the entries of the aliases that stand for it. -/
theorem Keyed.mem_iff (h : Keyed scope.entries) :
    (text, option) ∈ scope.entries ↔ scope.resolve text = some option :=
  ⟨h.lookup_of_mem, mem_entries_of_resolve⟩

/-! ## Registering options -/

/-- After an option is registered its aliases stand for it, and all others for what they did. -/
theorem resolve_register (scope : Scope) (option : SymbolId) (aliases : List String)
    (text : String) :
    (scope.register option aliases).resolve text =
      if text ∈ aliases then some option else scope.resolve text := by
  have hfold : ∀ entries : List (String × SymbolId),
      (aliases.foldl (enter option) entries).lookup text =
        if text ∈ aliases then some option else entries.lookup text := by
    induction aliases with
    | nil => exact fun entries => rfl
    | cons first rest ih =>
      intro entries
      rw [List.foldl_cons, ih, lookup_enter]
      by_cases hrest : text ∈ rest
      · rw [if_pos hrest, if_pos (List.mem_cons_of_mem first hrest)]
      · simp only [List.mem_cons, hrest, or_false, if_false]
  exact hfold scope.entries

/-- Registering an option adds it to the order at its end at most. -/
theorem order_register_sublist (scope : Scope) (option : SymbolId) (aliases : List String) :
    (scope.register option aliases).order.Sublist (scope.order ++ [option]) := by
  simp only [register]
  split
  · exact List.sublist_append_left _ _
  · exact List.Sublist.refl _

/-! ## Views of a scope -/

/-- The aliases of an option are the texts that stand for it. -/
theorem mem_aliasesOf_iff (h : Keyed scope.entries) :
    text ∈ scope.aliasesOf option ↔ scope.resolve text = some option := by
  rw [← h.mem_iff, aliasesOf, List.mem_mergeSort, List.mem_map]
  constructor
  · rintro ⟨⟨key, value⟩, hentry, rfl⟩
    obtain ⟨hmem, hvalue⟩ := List.mem_filter.mp hentry
    rwa [← eq_of_beq hvalue]
  · intro hmem
    exact ⟨(text, option), List.mem_filter.mpr ⟨hmem, beq_self_eq_true option⟩, rfl⟩

/-- The aliases of an option grow from each one to the next, so none is listed twice. -/
theorem pairwise_aliasesOf (h : Keyed scope.entries) (option : SymbolId) :
    (scope.aliasesOf option).Pairwise (· < ·) := by
  have htrans : ∀ a b c : String,
      decide (a ≤ b) = true → decide (b ≤ c) = true → decide (a ≤ c) = true := by
    intro a b c hab hbc
    exact decide_eq_true (String.le_trans (of_decide_eq_true hab) (of_decide_eq_true hbc))
  have htotal : ∀ a b : String, (decide (a ≤ b) || decide (b ≤ a)) = true := by
    intro a b
    simpa using String.le_total a b
  have hsorted : (scope.aliasesOf option).Pairwise (· ≤ ·) :=
    (List.pairwise_mergeSort htrans htotal _).imp of_decide_eq_true
  have hnodup : (scope.aliasesOf option).Nodup := by
    rw [aliasesOf, (List.mergeSort_perm _ _).nodup_iff]
    exact List.filter_sublist.map Prod.fst |>.nodup h
  refine List.Pairwise.imp₂ (fun first second hle hne => ?_) hsorted hnodup
  exact String.not_le.mp fun hge => hne (String.le_antisymm hle hge)

/-- The options of a scope are the registered ones that some text stands for. -/
theorem mem_options_iff (h : Keyed scope.entries) :
    option ∈ scope.options ↔ option ∈ scope.order ∧ ∃ text, scope.resolve text = some option := by
  rw [options, List.mem_filter, List.any_eq_true]
  refine and_congr_right fun _ => ?_
  constructor
  · rintro ⟨⟨key, value⟩, hmem, hvalue⟩
    refine ⟨key, h.mem_iff.mp ?_⟩
    rwa [← eq_of_beq hvalue]
  · rintro ⟨text, hresolve⟩
    exact ⟨(text, option), h.mem_iff.mpr hresolve, beq_self_eq_true option⟩

end Scope

namespace CommandTree

variable {β : Type} {tree : CommandTree β} {command option : SymbolId} {text : String}

/-! ## The search for an alias -/

/-- The options among which an alias is looked for: the command's own from the last one back, then
those that each symbol on the way up passes on, nearest one first and again from the last one back. -/
def nearestFirst (tree : CommandTree β) (command : SymbolId) (chain : List SymbolId) :
    List SymbolId :=
  (tree.options command).reverse ++
    chain.flatMap fun ancestor => ((tree.options ancestor).filter tree.isInherited).reverse

/-- The nearest option with an alias. -/
def nearest? (tree : CommandTree β) (command : SymbolId) (chain : List SymbolId) (text : String) :
    Option SymbolId :=
  (tree.nearestFirst command chain).find? (tree.hasAlias · text)

/-- The options of a command and of those on the way up, outermost command first, as they were
declared. -/
def outermostFirst (tree : CommandTree β) (command : SymbolId) (chain : List SymbolId) :
    List SymbolId :=
  (chain.reverse ++ [command]).flatMap tree.options

/-- A scope that agrees with the search for the nearest option along the way up from a command. -/
structure NearestFirst (tree : CommandTree β) (command : SymbolId) (chain : List SymbolId)
    (scope : Scope) : Prop where
  lineage : tree.Lineage command chain
  /-- The way up from a command ends at the root. -/
  getLast?_lineage : (tree.command? command).isSome → (command :: chain).getLast? = some root
  resolve : ∀ text, scope.resolve text = tree.nearest? command chain text
  mem_aliasesOf : ∀ option text,
    text ∈ scope.aliasesOf option ↔ tree.nearest? command chain text = some option
  /-- Aliases are sorted, and no alias is listed twice. -/
  pairwise_aliasesOf : ∀ option, (scope.aliasesOf option).Pairwise (· < ·)
  mem_options : ∀ option,
    option ∈ scope.options ↔ ∃ text, tree.nearest? command chain text = some option
  /-- Options come in order of declaration, and no option is listed twice. -/
  options_sublist : scope.options.Sublist (tree.outermostFirst command chain)
  nodup_outermostFirst : (tree.outermostFirst command chain).Nodup

/-- A symbol answers to the texts that are aliases of it. -/
theorem hasAlias_eq (tree : CommandTree β) (id : SymbolId) (text : String) :
    tree.hasAlias id text = decide (text ∈ tree.aliases id) := by
  rw [hasAlias, aliases]
  cases tree.symbol? id <;> rfl

/-- The search goes through the declared options from the last one back. -/
theorem reverse_declaredOptions (tree : CommandTree β) (command : SymbolId) :
    (tree.declaredOptions command).reverse =
      tree.nearestFirst command (tree.ancestors command) := by
  rw [declaredOptions, List.reverse_append, List.reverse_flatMap, List.reverse_reverse]
  rfl

/-- A scope has one entry for each alias. -/
theorem keyed_scope (tree : CommandTree β) (command : SymbolId) :
    Scope.Keyed (tree.scope command).entries := by
  rw [scope]
  induction tree.declaredOptions command using List.reverseRecOn with
  | nil => exact List.nodup_nil
  | append_singleton declared last ih =>
    rw [List.foldl_append]
    exact ih.register last (tree.aliases last)

/-- Looking an alias up in a scope is searching for the nearest option. -/
theorem resolve_scope (tree : CommandTree β) (command : SymbolId) (text : String) :
    (tree.scope command).resolve text = tree.nearest? command (tree.ancestors command) text := by
  rw [nearest?, ← reverse_declaredOptions, scope]
  induction tree.declaredOptions command using List.reverseRecOn with
  | nil => rfl
  | append_singleton declared last ih =>
    -- The last registered option is the first one that the search looks at.
    rw [List.foldl_append, List.foldl_cons, List.foldl_nil, Scope.resolve_register, ih,
      List.reverse_append, List.reverse_singleton, List.singleton_append, List.find?_cons,
      hasAlias_eq]
    by_cases hlast : text ∈ tree.aliases last <;> simp [hlast]

/-- A scope lists options in the order in which they are declared. -/
theorem order_scope_sublist (tree : CommandTree β) (command : SymbolId) :
    (tree.scope command).order.Sublist (tree.declaredOptions command) := by
  rw [scope]
  induction tree.declaredOptions command using List.reverseRecOn with
  | nil => exact List.Sublist.refl _
  | append_singleton declared last ih =>
    rw [List.foldl_append]
    exact (Scope.order_register_sublist _ last _).trans (ih.append_right [last])

/-- The options that can be given are among those declared on the way from the root. -/
theorem declaredOptions_sublist (tree : CommandTree β) (command : SymbolId) :
    (tree.declaredOptions command).Sublist
      (tree.outermostFirst command (tree.ancestors command)) := by
  rw [declaredOptions, outermostFirst, List.flatMap_append, List.flatMap_singleton]
  refine List.Sublist.append_right ?_ _
  exact List.Sublist.flatMap_right _ fun ancestor _ => List.filter_sublist

/-- In a well-formed tree no option is declared twice on the way from the root to a command. -/
theorem WellFormed.nodup_outermostFirst (h : tree.WellFormed) (command : SymbolId) :
    (tree.outermostFirst command (tree.ancestors command)).Nodup := by
  rw [outermostFirst, List.nodup_flatMap]
  constructor
  · intro ancestor _
    rw [← (listed_eq tree ancestor).2.1]
    exact h.nodup_children .option ancestor
  · have hchain : ((tree.ancestors command).reverse ++ [command]).Nodup := by
      rw [← List.reverse_cons, List.nodup_reverse]
      exact h.nodup_ancestors command
    refine hchain.imp fun {first second} hne option hfirst hsecond => hne ?_
    have hparent := (h.mem_options.mp hfirst).2
    rw [(h.mem_options.mp hsecond).2] at hparent
    exact (Option.some.inj hparent).symm

/-- The options of a scope are those that some text stands for. -/
theorem mem_options_scope (tree : CommandTree β) (command option : SymbolId) :
    option ∈ (tree.scope command).options ↔
      ∃ text, (tree.scope command).resolve text = some option := by
  rw [Scope.mem_options_iff (tree.keyed_scope command)]
  constructor
  · exact And.right
  · rintro ⟨text, htext⟩
    have hentry := Scope.mem_entries_of_resolve htext
    have hdeclared := ((tree.scope_spec command).1 _ hentry).1
    exact ⟨((tree.scope_spec command).2 option).mpr hdeclared, text, htext⟩

/-- In every tree that edits make, the scope of a symbol is what the search for the nearest option on
the way up to the root says: in resolving any text, in the aliases of every option and in the options
that it lists. -/
theorem nearestFirst_scope (h : Reachable tree) (command : SymbolId) :
    ∃ chain, tree.NearestFirst command chain (tree.scope command) := by
  have hkeyed := tree.keyed_scope command
  have hlineage := h.wellFormed.lineage_ancestors command
  refine ⟨tree.ancestors command, hlineage, ?_, tree.resolve_scope command, ?_,
    Scope.pairwise_aliasesOf hkeyed, ?_, ?_, h.wellFormed.nodup_outermostFirst command⟩
  · intro hcommand
    obtain ⟨node, hnode⟩ := Option.isSome_iff_exists.mp hcommand
    exact h.wellFormed.getLast?_lineage hlineage (lt_size_of_command? hnode)
  · intro option text
    rw [Scope.mem_aliasesOf_iff hkeyed, resolve_scope]
  · intro option
    simp only [mem_options_scope, resolve_scope]
  · exact List.filter_sublist.trans
      ((tree.order_scope_sublist command).trans (tree.declaredOptions_sublist command))

/-- A program whose subcommand declares aliases of inherited options again: `app` passes `--dupe`,
`-d` and `-x` on, and `app child` has `--dupe` of its own and passes on another `-x`. -/
def shadowed : CommandTree Unit :=
  (new { name := "app" }).editAll
    [.addOption root { aliases := ["--dupe", "-d"] } true,
      .addOption root { aliases := ["-x"] } true,
      .addCommand root { name := "child" },
      .addOption 5 { aliases := ["--dupe", "--different"] } false,
      .addOption 5 { aliases := ["-x"] } true]

/-- An option that lost one of its aliases, and one that lost all. -/
theorem nearestFirst_scope_shadowed : ∃ chain, shadowed.NearestFirst 5 chain (shadowed.scope 5) :=
  nearestFirst_scope ((Reachable.new _).editAll _) 5

example : (shadowed.scope 5).options = [1, 6, 8] ∧ (shadowed.scope 5).aliasesOf 1 = ["-d"] := by
  decide +kernel

end CommandTree

end CommandLine
