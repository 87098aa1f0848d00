import CommandLine.Proofs.CommandTree.Coherent
import CommandLine.Proofs.CommandTree.Locality
import Mathlib.Data.List.MinMax

/-!
# Names under edits

A symbol has the name that it was given, or else the first of its longest aliases without dashes. A
given name is not touched by adding and removing aliases. A name that comes from an alias stays as
long as this alias is there and no longer one is.

A command is always given a name, and the name is one of its aliases. A new name takes the place of
the old one in both, and the other aliases stay in their order.
-/

namespace CommandLine

/-- Leaving members out of a list does not change the first greatest one, unless it is left out. -/
theorem Sequence.argmax_filter {A : Type} {f : A → ℕ} {p : A → Bool} {values : List A} {best : A}
    (h : values.argmax f = some best) (hbest : p best = true) :
    (values.filter p).argmax f = some best := by
  induction values using List.reverseRecOn generalizing best with
  | nil => simp at h
  | append_singleton rest last ih =>
    rw [List.argmax_concat] at h
    rw [List.filter_append]
    cases hrest : rest.argmax f with
    | none =>
      obtain rfl : rest = [] := List.argmax_eq_none.mp hrest
      obtain rfl : last = best := by simpa using h
      simp [hbest]
    | some kept =>
      simp only [hrest] at h
      split at h
      · -- The last one is greater than all others, so than those that are not left out.
        obtain rfl := Option.some.inj h
        rw [List.filter_singleton, hbest, cond_true, List.argmax_concat]
        cases hfilter : (rest.filter p).argmax f with
        | none => rfl
        | some other =>
          have hmem : other ∈ rest := List.mem_of_mem_filter (List.argmax_mem hfilter)
          have hle : f other ≤ f kept := List.le_of_mem_argmax hmem hrest
          exact if_pos (Nat.lt_of_le_of_lt hle ‹_›)
      · obtain rfl := Option.some.inj h
        have hkept := ih hrest hbest
        cases hlast : p last with
        | false => simpa [List.filter_singleton, hlast] using hkept
        | true =>
          rw [List.filter_singleton, hlast, cond_true, List.argmax_concat, hkept]
          exact if_neg ‹_›

/-! ## The longest alias -/

namespace AliasSet

variable {set : AliasSet} {best text : String}

/-- The longest alias is the first one with the most bytes. -/
theorem longest?_eq_argmax (set : AliasSet) :
    set.longest? = set.toList.argmax String.utf8ByteSize := by
  have hlonger : longer =
      List.argAux fun text kept : String => kept.utf8ByteSize < text.utf8ByteSize := by
    funext best text
    cases best <;> rfl
  rw [longest?, hlonger]
  rfl

/-- The longest alias stays the longest when another one is removed. -/
theorem longest?_erase (h : set.longest? = some best) (hne : best ≠ text) :
    (set.erase text).longest? = some best := by
  rw [longest?_eq_argmax] at h ⊢
  exact Sequence.argmax_filter h (by simpa using hne)

/-- An inserted alias is the last one, unless it was there before. -/
theorem toList_insert (set : AliasSet) (text : String) :
    (set.insert text).toList =
      if text ∈ set.toList then set.toList else set.toList ++ [text] := by
  rw [insert]
  split <;> rfl

/-- The longest alias stays the longest when one is added that is no longer. -/
theorem longest?_insert (h : set.longest? = some best)
    (hle : text.utf8ByteSize ≤ best.utf8ByteSize) : (set.insert text).longest? = some best := by
  rw [longest?_eq_argmax] at h ⊢
  rw [toList_insert]
  split
  · exact h
  · rw [List.argmax_concat, h]
    exact if_neg (Nat.not_lt.mpr hle)

/-- No alias is longer than the longest one. -/
theorem utf8ByteSize_le_of_longest? (h : set.longest? = some best) (hmem : text ∈ set) :
    text.utf8ByteSize ≤ best.utf8ByteSize := by
  rw [longest?_eq_argmax] at h
  exact List.le_of_mem_argmax (mem_def.mp hmem) h

/-- Only a set without aliases has no longest one. -/
theorem longest?_eq_none_iff : set.longest? = none ↔ set.toList = [] := by
  rw [longest?_eq_argmax, List.argmax_eq_none]

/-- When an alias is exchanged for another one, all others stay in their order. -/
theorem filter_insert_erase (set : AliasSet) (old new : String) :
    ((set.erase old).insert new).toList.filter (fun text => text ≠ old ∧ text ≠ new) =
      set.toList.filter fun text => text ≠ old ∧ text ≠ new := by
  have herase : (set.erase old).toList.filter (fun text => text ≠ old ∧ text ≠ new) =
      set.toList.filter fun text => text ≠ old ∧ text ≠ new := by
    rw [erase, List.filter_filter]
    refine List.filter_congr fun text _ => ?_
    by_cases hold : text = old <;> simp [hold]
  rw [toList_insert]
  split
  · exact herase
  · rw [List.filter_append, herase]
    simp

end AliasSet

namespace Symbol

variable {β : Type} {text : String}

/-- A name stays when an alias is removed that it does not come from. -/
theorem name_erase (symbol : Symbol β) (h : Alias.stripDash text ≠ symbol.name) :
    ({ symbol with aliases := symbol.aliases.erase text } : Symbol β).name = symbol.name := by
  cases hexplicit : symbol.explicitName with
  | some given => simp [name, hexplicit]
  | none =>
    cases hlongest : symbol.aliases.longest? with
    | none =>
      have hempty : (symbol.aliases.erase text).longest? = none := by
        rw [AliasSet.longest?_eq_none_iff] at hlongest ⊢
        simp [AliasSet.erase, hlongest]
      simp [name, hexplicit, hlongest, hempty]
    | some best =>
      have hne : best ≠ text := by
        rintro rfl
        simp [name, hexplicit, hlongest] at h
      simp [name, hexplicit, hlongest, AliasSet.longest?_erase hlongest hne]

/-- A name stays when an alias is added that is not longer than one that is there. -/
theorem name_insert (symbol : Symbol β) {kept : String} (hkept : kept ∈ symbol.aliases)
    (hle : text.utf8ByteSize ≤ kept.utf8ByteSize) :
    ({ symbol with aliases := symbol.aliases.insert text } : Symbol β).name = symbol.name := by
  cases hexplicit : symbol.explicitName with
  | some given => simp [name, hexplicit]
  | none =>
    cases hlongest : symbol.aliases.longest? with
    | none =>
      rw [AliasSet.longest?_eq_none_iff] at hlongest
      simp [AliasSet.mem_def, hlongest] at hkept
    | some best =>
      have hbest := AliasSet.utf8ByteSize_le_of_longest? hlongest hkept
      simp [name, hexplicit, hlongest,
        AliasSet.longest?_insert hlongest (Nat.le_trans hle hbest)]

/-- A new name of a command takes the place of the old one among its aliases. -/
theorem rename_command (symbol : Symbol β) (new : String) {old : String}
    (hcommand : symbol.command?.isSome) (hold : symbol.explicitName = some old) :
    (symbol.rename new).explicitName = some new ∧
      (symbol.rename new).aliases = (symbol.aliases.erase old).insert new := by
  cases hrole : symbol.role with
  | command node => simp [rename, hrole, hold]
  | option node => simp [command?, hrole] at hcommand
  | argument node => simp [command?, hrole] at hcommand

end Symbol

/-- Edits that add or remove an alias. -/
def Edit.OnAliases {β : Type} : Edit β → Prop
  | .addAlias _ _ => True
  | .removeAlias _ _ => True
  | _ => False

namespace CommandTree

variable {β : Type} {tree next : CommandTree β} {edit : Edit β} {reply : EditReply}
  {id target : SymbolId} {symbol : Symbol β} {text : String}

/-! ## Given names -/

/-- The name that a symbol was given, if it was given one. -/
def explicitName? (tree : CommandTree β) (id : SymbolId) : Option String :=
  (tree.symbol? id).bind (·.explicitName)

/-- A name that was given is the name. -/
theorem name_of_explicitName? {given : String} (h : tree.explicitName? id = some given) :
    tree.name id = given := by
  obtain ⟨symbol, hsymbol, hgiven⟩ := Option.bind_eq_some_iff.mp h
  rw [name, hsymbol]
  simp [Symbol.name, hgiven]

/-- Adding or removing an alias changes no name that was given. -/
theorem Edited.explicitName?_eq (h : Edited tree edit reply next) (honly : edit.OnAliases)
    (id : SymbolId) : next.explicitName? id = tree.explicitName? id := by
  have hmodify : ∀ target (change : AliasSet → AliasSet),
      explicitName? (tree.modify target fun symbol =>
        { symbol with aliases := change symbol.aliases }) id = tree.explicitName? id := by
    intro target change
    rw [explicitName?, symbol?_modify, explicitName?]
    split
    · cases tree.symbol? id <;> rfl
    · rfl
  cases h with
  | addAlias => exact hmodify _ (AliasSet.insert · _)
  | removeAlias => exact hmodify _ (AliasSet.erase · _)
  | _ => exact honly.elim

/-- However aliases are added and removed, no name that was given changes. -/
theorem explicitName?_editAll {edits : List (Edit β)} (h : ∀ edit ∈ edits, edit.OnAliases)
    (id : SymbolId) : (tree.editAll edits).explicitName? id = tree.explicitName? id := by
  induction edits generalizing tree with
  | nil => rfl
  | cons edit edits ih =>
    rw [List.forall_mem_cons] at h
    unfold editAll
    split
    · exact (ih h.2).trans ((edited_of_edit ‹_›).explicitName?_eq h.1 id)
    · exact ih h.2

/-- Every command was given a name. -/
theorem Reachable.isSome_explicitName (h : Reachable tree) {symbol : Symbol β}
    (hsymbol : tree.symbol? id = some symbol) (hcommand : symbol.command?.isSome) :
    symbol.explicitName.isSome := by
  revert hcommand
  refine h.forall_symbol (P := fun symbol => symbol.command?.isSome → symbol.explicitName.isSome)
    (fun _ _ _ => rfl) ?_ (fun _ _ _ _ => rfl) ?_ ?_ id symbol hsymbol
  · intro decl inherited argument parent hcommand
    simp [OptionDecl.symbol, Symbol.command?] at hcommand
  · intro symbol node kind id hrole hnamed _
    exact hnamed (by simp [Symbol.command?, hrole])
  · intro edit symbol reply id altered halters hnamed hcommand
    cases halters with
    | commandAction hrole => exact hnamed (by simp [Symbol.command?, hrole])
    | optionAction hrole => simp [Symbol.command?] at hcommand
    | addAlias => exact hnamed hcommand
    | removeAlias => exact hnamed hcommand
    | commandName => rfl
    | otherName => rfl
    | setDescription => exact hnamed hcommand
    | setHidden => exact hnamed hcommand

/-! ## Names that come from aliases -/

/-- An edit that changes no name where it has an outcome changes none where it is refused. -/
theorem name_editAll_singleton
    (h : ∀ reply next, Edited tree edit reply next → next.name id = tree.name id) :
    (tree.editAll [edit]).name id = tree.name id := by
  simp only [editAll]
  split
  · exact h _ _ (edited_of_edit ‹_›)
  · rfl

/-- A change that leaves the name of its symbol alone leaves all names alone. -/
theorem name_modify {change : Symbol β → Symbol β}
    (h : ∀ symbol, tree.symbol? target = some symbol → (change symbol).name = symbol.name)
    (id : SymbolId) : (tree.modify target change).name id = tree.name id := by
  rw [name, symbol?_modify, name]
  split
  · subst id
    cases hsymbol : tree.symbol? target with
    | none => rfl
    | some symbol => exact h symbol hsymbol
  · rfl

/-- The name of a symbol of the tree. -/
theorem name_eq (h : tree.symbol? id = some symbol) : tree.name id = symbol.name := by
  rw [name, h]
  rfl

/-- Removing an alias that a name does not come from leaves the name alone. -/
theorem name_removeAlias (h : Alias.stripDash text ≠ tree.name id) :
    (tree.editAll [.removeAlias id text]).name id = tree.name id := by
  refine name_editAll_singleton fun reply next hedited => ?_
  cases hedited with
  | removeAlias _ =>
    refine name_modify (fun symbol hsymbol => symbol.name_erase ?_) id
    rwa [name_eq hsymbol] at h

/-- Adding an alias that is not longer than every other one leaves a name alone. -/
theorem name_addAlias {kept : String} (hkept : kept ∈ tree.aliases id)
    (hle : text.utf8ByteSize ≤ kept.utf8ByteSize) :
    (tree.editAll [.addAlias id text]).name id = tree.name id := by
  refine name_editAll_singleton fun reply next hedited => ?_
  cases hedited with
  | addAlias _ _ _ =>
    refine name_modify (fun symbol hsymbol => symbol.name_insert ?_ hle) id
    rwa [aliases_eq hsymbol] at hkept

/-! ## New names of commands -/

/-- A command that got a new name. -/
structure Renames (before after : CommandTree β) (id : SymbolId) (name : String) : Prop where
  name_eq : after.name id = name
  mem_aliases : name ∈ after.aliases id
  notMem_aliases : before.name id ≠ name → before.name id ∉ after.aliases id
  /-- All other aliases are the same ones in the same order. -/
  filter_aliases :
    (after.aliases id).filter (fun text => text ≠ before.name id ∧ text ≠ name) =
      (before.aliases id).filter fun text => text ≠ before.name id ∧ text ≠ name

/-- A new name of a command takes the place of its old one. -/
theorem Reachable.renames (h : Reachable tree) {name : String}
    (hcommand : (tree.command? id).isSome)
    (hedit : tree.edit (.setName id name) = .ok (reply, next)) : tree.Renames next id name := by
  have hsome : (tree.symbol? id).isSome :=
    isSome_symbol?_iff.mpr (lt_size_of_command? (Option.some_get hcommand).symm)
  obtain ⟨symbol, hsymbol⟩ := Option.isSome_iff_exists.mp hsome
  rw [command?, hsymbol, Option.bind_some] at hcommand
  obtain ⟨old, hold⟩ := Option.isSome_iff_exists.mp (h.isSome_explicitName hsymbol hcommand)
  have hname : tree.name id = old :=
    name_of_explicitName? (by rw [explicitName?, hsymbol, Option.bind_some, hold])
  obtain ⟨hgiven, haliases⟩ := symbol.rename_command name hcommand hold
  have hnext : next.symbol? id = some (symbol.rename name) := by
    cases edited_of_edit hedit with
    | setName _ _ => rw [symbol?_modify, if_pos rfl, hsymbol, Option.map_some]
  have hlist : next.aliases id = ((symbol.aliases.erase old).insert name).toList := by
    rw [aliases_eq hnext, haliases]
  refine ⟨name_of_explicitName? ?_, ?_, fun hne => ?_, ?_⟩
  · rw [explicitName?, hnext, Option.bind_some, hgiven]
  · rw [hlist, ← AliasSet.mem_def, AliasSet.mem_insert]
    exact Or.inr rfl
  · rw [hname] at hne ⊢
    rw [hlist, ← AliasSet.mem_def, AliasSet.mem_insert, AliasSet.mem_erase]
    rintro (⟨-, hkept⟩ | heq)
    · exact hkept rfl
    · exact hne heq
  · rw [hname, hlist, aliases_eq hsymbol]
    exact AliasSet.filter_insert_erase symbol.aliases old name

/-! ## All names -/

/-- How the name of a symbol stands up to edits of its aliases, and to a new name for a command. -/
structure NameStable (tree : CommandTree β) (id : SymbolId) : Prop where
  /-- A name that was given stays, whatever aliases are added and removed anywhere. -/
  explicit : (tree.explicitName? id).isSome → ∀ edits : List (Edit β),
    (∀ edit ∈ edits, edit.OnAliases) → (tree.editAll edits).name id = tree.name id
  /-- Any name stays when an alias is removed, unless the alias without dashes is the name. -/
  removeAlias : ∀ text, Alias.stripDash text = tree.name id ∨
    (tree.editAll [.removeAlias id text]).name id = tree.name id
  /-- Any name stays when an alias is added, unless the alias is longer than every other one. -/
  addAlias : ∀ text, (∀ kept ∈ tree.aliases id, kept.utf8ByteSize < text.utf8ByteSize) ∨
    (tree.editAll [.addAlias id text]).name id = tree.name id
  renames : (tree.command? id).isSome → ∀ name reply next,
    tree.edit (.setName id name) = .ok (reply, next) → tree.Renames next id name

/-- In every tree that edits make, the name of every symbol is stable. -/
theorem nameStable (h : Reachable tree) (id : SymbolId) : tree.NameStable id where
  explicit hgiven edits honly := by
    obtain ⟨given, hname⟩ := Option.isSome_iff_exists.mp hgiven
    rw [name_of_explicitName? hname]
    exact name_of_explicitName? ((explicitName?_editAll honly id).trans hname)
  removeAlias text := by
    by_cases heq : Alias.stripDash text = tree.name id
    · exact Or.inl heq
    · exact Or.inr (name_removeAlias heq)
  addAlias text := by
    by_cases hall : ∀ kept ∈ tree.aliases id, kept.utf8ByteSize < text.utf8ByteSize
    · exact Or.inl hall
    · push Not at hall
      obtain ⟨kept, hkept, hle⟩ := hall
      exact Or.inr (name_addAlias hkept hle)
  renames hcommand name reply next hedit := h.renames hcommand hedit

/-- A program with an option that has two longest aliases, and a command with two further aliases:
`app --list`, also `-names` and `-n`, and `app build`, also `b` and `make`. -/
def labelled : CommandTree Unit :=
  (new { name := "app" }).editAll
    [.addOption root { aliases := ["-n", "--list", "-names"] } false,
      .addCommand root { name := "build", aliases := ["b", "make"] }]

/-- The name of the option is stable, and the command can be named by one of its aliases. -/
theorem nameStable_labelled : labelled.NameStable 1 ∧ (labelled.explicitName? 3).isSome ∧
    ∃ next, labelled.edit (.setName 3 "make") = .ok (.done, next) ∧
      labelled.Renames next 3 "make" := by
  have hreachable : Reachable labelled := (Reachable.new _).editAll _
  refine ⟨nameStable hreachable 1, by decide +kernel, labelled.modify 3 (Symbol.rename "make"),
    rfl, ?_⟩
  exact (nameStable hreachable 3).renames (by decide +kernel) "make" .done _ rfl

example : labelled.name 1 = "list" ∧
    (labelled.editAll [.removeAlias 1 "--list"]).name 1 = "names" ∧
    (labelled.editAll [.setName 3 "make"]).aliases 3 = ["b", "make"] := by decide +kernel

end CommandTree

end CommandLine
