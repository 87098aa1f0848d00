import CommandLine.Proofs.CommandTree.Ancestors
import Mathlib.Data.List.Nodup

/-!
# What holds in every tree that edits make

Whatever sequence of edits a tree went through, refused ones included, its symbols hang together:
the root is a command, every other symbol is listed once and by its parent, aliases are distinct
and can be given as tokens, and the way up from any symbol ends at the root. Only the root may have
aliases that no token can be, since it is never looked for.

The links are those of a well-formed tree. The aliases have an invariant of their own, which is
kept by every edit.
-/

namespace CommandLine

variable {β : Type}

/-! ## Aliases -/

/-- A text passes the check of an alias if it is well formed. -/
theorem Alias.check_eq_ok {text : String} :
    Alias.check text = .ok () ↔ Alias.isWellFormed text = true := by
  unfold Alias.check
  split <;> simp [*]

/-- Texts pass the check of aliases if each of them does. -/
theorem Alias.checkAll_eq_ok {texts : List String} :
    Alias.checkAll texts = .ok () ↔ ∀ text ∈ texts, Alias.isWellFormed text = true := by
  induction texts with
  | nil => simp [Alias.checkAll]
  | cons text texts ih =>
    rw [Alias.checkAll, CommandTree.bind_eq_ok, List.forall_mem_cons, ← ih, ← Alias.check_eq_ok]
    exact ⟨fun ⟨_, hfirst, hrest⟩ => ⟨hfirst, hrest⟩, fun ⟨hfirst, hrest⟩ => ⟨(), hfirst, hrest⟩⟩

/-- A text can be an alias exactly if it is not empty and none of its characters is blank. -/
theorem Alias.isWellFormed_iff {text : String} :
    Alias.isWellFormed text = true ↔ text ≠ "" ∧ ∀ c ∈ text.toList, Text.isBlank c = false := by
  have hempty : text.toList = [] ↔ text = "" := String.toList_eq_nil_iff
  simp [Alias.isWellFormed, hempty]

namespace AliasSet

/-- Inserting aliases one after another adds all of them. -/
theorem mem_foldl_insert {aliases : List String} {set : AliasSet} {text : String} :
    text ∈ aliases.foldl insert set ↔ text ∈ set ∨ text ∈ aliases := by
  induction aliases generalizing set with
  | nil => simp
  | cons first rest ih => rw [List.foldl_cons, ih, mem_insert, List.mem_cons, or_assoc]

/-- A set made of a list holds what the list holds. -/
theorem mem_ofList {aliases : List String} {text : String} :
    text ∈ ofList aliases ↔ text ∈ aliases := by
  have hnone : text ∉ empty := List.not_mem_nil
  rw [ofList, mem_foldl_insert, or_iff_right hnone]

end AliasSet

namespace Symbol

variable {symbol changed : Symbol β}

/-- A symbol with aliases that its kind allows: none for an argument, else texts fit for a token. -/
def AliasesFit (symbol : Symbol β) : Prop :=
  ∀ text ∈ symbol.aliases, symbol.argument? = none ∧ Alias.isWellFormed text = true

/-- A change that keeps the kind and adds fit aliases at most leaves the aliases fit. -/
theorem AliasesFit.of_change (h : symbol.AliasesFit) (hkind : changed.argument? = symbol.argument?)
    (haliases : ∀ text ∈ changed.aliases, text ∈ symbol.aliases ∨
      (symbol.argument? = none ∧ Alias.isWellFormed text = true)) : changed.AliasesFit := by
  intro text htext
  rw [hkind]
  rcases haliases text htext with hold | hnew
  · exact h text hold
  · exact hnew

/-- Changing what only a command has changes no alias. -/
@[simp] theorem aliases_onCommand (change : CommandNode β → CommandNode β) (symbol : Symbol β) :
    (symbol.onCommand change).aliases = symbol.aliases := by
  cases hrole : symbol.role <;> simp only [onCommand, hrole]

/-- Changing what only a command has makes no argument and unmakes none. -/
@[simp] theorem argument?_onCommand (change : CommandNode β → CommandNode β) (symbol : Symbol β) :
    (symbol.onCommand change).argument? = symbol.argument? := by
  cases hrole : symbol.role <;> simp only [onCommand, argument?, hrole]

/-- Attaching an action changes no alias, and is done to commands and options only. -/
theorem of_withAction? {action : Action β} (h : symbol.withAction? action = some changed) :
    changed.aliases = symbol.aliases ∧ changed.argument? = symbol.argument? := by
  cases hrole : symbol.role with
  | argument node => simp [withAction?, hrole] at h
  | _ =>
    simp only [withAction?, hrole, Option.some.injEq] at h
    subst h
    exact ⟨rfl, by simp only [argument?, hrole]⟩

/-- A renamed symbol has its old aliases at most, and its new name if it is a command. -/
theorem mem_aliases_rename {name text : String} (h : text ∈ (symbol.rename name).aliases) :
    text ∈ symbol.aliases ∨ (symbol.command?.isSome ∧ text = name) := by
  cases hrole : symbol.role with
  | command node =>
    simp only [rename, hrole, AliasSet.mem_insert] at h
    rcases h with hkept | hname
    · cases hexplicit : symbol.explicitName with
      | none => exact Or.inl (by simpa [hexplicit] using hkept)
      | some old => exact Or.inl (AliasSet.mem_erase.mp (by simpa [hexplicit] using hkept)).1
    · exact Or.inr ⟨by simp [command?, hrole], hname⟩
  | option node => exact Or.inl (by simpa only [rename, hrole] using h)
  | argument node => exact Or.inl (by simpa only [rename, hrole] using h)

/-- A new name makes no argument and unmakes none. -/
theorem argument?_rename (name : String) (symbol : Symbol β) :
    (symbol.rename name).argument? = symbol.argument? := by
  cases hrole : symbol.role <;> simp only [rename, argument?, hrole]

/-- A command is no argument. -/
theorem argument?_eq_none_of_command? (h : symbol.command?.isSome) : symbol.argument? = none := by
  cases hrole : symbol.role with
  | command node => simp only [argument?, hrole]
  | option node => simp only [argument?, hrole]
  | argument node => simp [command?, hrole] at h

end Symbol

/-! ## The symbols of a declaration -/

/-- A declared command has fit aliases if its name and its further aliases were checked. -/
theorem CommandDecl.aliasesFit_symbol {decl : CommandDecl β} {parent : Option SymbolId}
    (h : Alias.checkAll (decl.name :: decl.aliases) = .ok ()) : (decl.symbol parent).AliasesFit :=
  fun text htext => ⟨rfl, Alias.checkAll_eq_ok.mp h text (AliasSet.mem_ofList.mp htext)⟩

/-- A declared option has fit aliases if they were checked. -/
theorem OptionDecl.aliasesFit_symbol {decl : OptionDecl β} {inherited : Bool}
    {argument parent : SymbolId} (h : Alias.checkAll decl.aliases = .ok ()) :
    (decl.symbol inherited argument parent).AliasesFit :=
  fun text htext => ⟨rfl, Alias.checkAll_eq_ok.mp h text (AliasSet.mem_ofList.mp htext)⟩

/-- A declared argument has no aliases. -/
theorem ArgumentDecl.aliasesFit_symbol {decl : ArgumentDecl} {forOption : Bool}
    {parent : SymbolId} : (decl.symbol forOption parent : Symbol β).AliasesFit :=
  fun _ htext => absurd htext List.not_mem_nil

namespace CommandTree

variable {tree : CommandTree β}

/-! ## The invariant of the aliases -/

/-- A tree in which every symbol but the root has fit aliases. -/
def AliasesFit (tree : CommandTree β) : Prop :=
  ∀ id symbol, tree.symbol? id = some symbol → id ≠ root → symbol.AliasesFit

/-- The aliases of a new tree are those of its root. -/
theorem aliasesFit_new (decl : CommandDecl β) : (new decl).AliasesFit := by
  intro id symbol hsymbol hne
  rw [symbol?_new, if_neg hne] at hsymbol
  simp at hsymbol

/-- A pushed symbol with fit aliases leaves the aliases of a tree fit. -/
theorem AliasesFit.push (h : tree.AliasesFit) {symbol : Symbol β} (hsymbol : symbol.AliasesFit) :
    (tree.push symbol).AliasesFit := by
  intro id found hfound hne
  rw [symbol?_push] at hfound
  split at hfound
  · rw [← Option.some.inj hfound]
    exact hsymbol
  · exact h id found hfound hne

/-- A change that leaves the aliases of its symbol fit leaves those of the tree fit. -/
theorem AliasesFit.modify (h : tree.AliasesFit) {target : SymbolId} {change : Symbol β → Symbol β}
    (hchange : ∀ symbol, tree.symbol? target = some symbol → symbol.AliasesFit →
      (change symbol).AliasesFit) : (tree.modify target change).AliasesFit := by
  intro id found hfound hne
  rw [symbol?_modify] at hfound
  split at hfound
  · subst id
    obtain ⟨symbol, hsymbol, rfl⟩ := Option.map_eq_some_iff.mp hfound
    exact hchange symbol hsymbol (h target symbol hsymbol hne)
  · exact h id found hfound hne

/-- A new child entered into a list of its parent leaves the aliases of a tree fit. -/
theorem AliasesFit.onCommand (h : tree.AliasesFit) (target : SymbolId)
    (change : CommandNode β → CommandNode β) :
    (tree.modify target (Symbol.onCommand change)).AliasesFit :=
  h.modify fun symbol _ hfit =>
    hfit.of_change (symbol.argument?_onCommand change) fun text htext =>
      Or.inl (by rwa [Symbol.aliases_onCommand] at htext)

/-- One edit leaves the aliases of a tree fit. -/
theorem AliasesFit.edited (h : tree.AliasesFit) {edit : Edit β} {reply : EditReply}
    {next : CommandTree β} (hedit : Edited tree edit reply next) : next.AliasesFit := by
  cases hedit with
  | addCommand hparent hchecked =>
    exact (h.push (CommandDecl.aliasesFit_symbol hchecked)).onCommand _ _
  | addOption hparent hnonempty hchecked =>
    exact ((h.push (OptionDecl.aliasesFit_symbol hchecked)).push
      ArgumentDecl.aliasesFit_symbol).onCommand _ _
  | addArgument hparent => exact (h.push ArgumentDecl.aliasesFit_symbol).onCommand _ _
  | setAction hsymbol hchanged =>
    refine h.modify fun symbol hfound hfit => ?_
    obtain rfl := Option.some.inj (hsymbol.symm.trans hfound)
    obtain ⟨haliases, hkind⟩ := Symbol.of_withAction? hchanged
    exact hfit.of_change hkind fun text htext => Or.inl (haliases ▸ htext)
  | addAlias hchecked hsymbol hkind =>
    refine h.modify fun symbol hfound hfit => hfit.of_change rfl fun text htext => ?_
    obtain rfl := Option.some.inj (hsymbol.symm.trans hfound)
    rcases AliasSet.mem_insert.mp htext with hold | rfl
    · exact Or.inl hold
    · exact Or.inr ⟨hkind, Alias.check_eq_ok.mp hchecked⟩
  | removeAlias hsymbol =>
    exact h.modify fun symbol _ hfit => hfit.of_change rfl fun text htext =>
      Or.inl (AliasSet.mem_erase.mp htext).1
  | setName hsymbol hchecked =>
    refine h.modify fun symbol hfound hfit =>
      hfit.of_change (Symbol.argument?_rename _ symbol) fun text htext => ?_
    obtain rfl := Option.some.inj (hsymbol.symm.trans hfound)
    rcases Symbol.mem_aliases_rename htext with hold | ⟨hcommand, rfl⟩
    · exact Or.inl hold
    · exact Or.inr ⟨Symbol.argument?_eq_none_of_command? hcommand,
        Alias.check_eq_ok.mp (hchecked hcommand)⟩
  | setDescription hsymbol =>
    exact h.modify fun symbol _ hfit => hfit.of_change rfl fun text htext => Or.inl htext
  | setHidden hsymbol =>
    exact h.modify fun symbol _ hfit => hfit.of_change rfl fun text htext => Or.inl htext

/-- Every tree that edits can make has fit aliases. -/
theorem Reachable.aliasesFit (h : Reachable tree) : tree.AliasesFit := by
  induction h with
  | new decl => exact aliasesFit_new decl
  | edit _ hedit ih => exact ih.edited (edited_of_edit hedit)

/-! ## Children -/

/-- The children of a symbol are its lists by kind, one after another. -/
theorem children_eq_listed (tree : CommandTree β) (id : SymbolId) :
    tree.children id =
      tree.listed .command id ++ tree.listed .option id ++ tree.listed .argument id := by
  unfold children listed role?
  cases tree.symbol? id with
  | none => rfl
  | some symbol => cases hrole : symbol.role <;> simp [Symbol.listed, hrole]

namespace WellFormed

variable {id parent : SymbolId}

/-- The children of a symbol are the symbols that have it as their parent. -/
theorem mem_children_iff (h : tree.WellFormed) :
    id ∈ tree.children parent ↔ tree.parent? id = some parent := by
  rw [children_eq_listed, List.mem_append, List.mem_append, h.mem_children, h.mem_children,
    h.mem_children]
  constructor
  · rintro ((⟨-, hparent⟩ | ⟨-, hparent⟩) | ⟨-, hparent⟩) <;> exact hparent
  · intro hparent
    have hsome : (tree.kind? id).isSome := by
      unfold parent? at hparent
      obtain ⟨symbol, hsymbol, -⟩ := Option.bind_eq_some_iff.mp hparent
      simp [kind?, hsymbol]
    obtain ⟨kind, hkind⟩ := Option.isSome_iff_exists.mp hsome
    cases kind <;> simp [hkind, hparent]

/-- No symbol has a child twice. -/
theorem nodup_children_of (h : tree.WellFormed) (parent : SymbolId) :
    (tree.children parent).Nodup := by
  -- A child in two of the lists would be of two kinds.
  have hdisjoint : ∀ {first second : Kind}, first ≠ second →
      List.Disjoint (tree.listed first parent) (tree.listed second parent) := by
    intro first second hne id hfirst hsecond
    have hkind := (h.mem_children.mp hfirst).1
    rw [(h.mem_children.mp hsecond).1] at hkind
    exact hne (Option.some.inj hkind).symm
  rw [children_eq_listed]
  refine ((h.nodup_children .command parent).append (h.nodup_children .option parent)
    (hdisjoint (by decide))).append (h.nodup_children .argument parent) ?_
  rw [List.disjoint_append_left]
  exact ⟨hdisjoint (by decide), hdisjoint (by decide)⟩

/-- Among the children of all symbols every symbol but the root occurs once. -/
theorem count_children (h : tree.WellFormed) (hid : id < tree.size) (hne : id ≠ root) :
    ((List.range tree.size).flatMap tree.children).count id = 1 := by
  refine List.count_eq_one_of_mem ?_ ?_
  · rw [List.nodup_flatMap]
    refine ⟨fun parent _ => h.nodup_children_of parent, ?_⟩
    refine List.nodup_range.imp fun {first second} hother child hfirst hsecond => hother ?_
    have hparent := h.mem_children_iff.mp hfirst
    rw [h.mem_children_iff.mp hsecond] at hparent
    exact (Option.some.inj hparent).symm
  · obtain ⟨parent, hparent⟩ := Option.isSome_iff_exists.mp (h.isSome_parent id hid hne)
    have hlt : parent < id := h.parent_lt hparent
    rw [List.mem_flatMap]
    exact ⟨parent, List.mem_range.mpr (Nat.lt_trans hlt hid), h.mem_children_iff.mpr hparent⟩

end WellFormed

/-! ## Coherent trees -/

/-- What holds in a tree whatever edits made it. -/
structure Coherent (tree : CommandTree β) : Prop where
  isSome_root : (tree.command? root).isSome
  parent_root : tree.parent? root = none
  /-- Every other symbol has a parent before it, and is in its parent's list of its own kind. -/
  exists_parent : ∀ id < tree.size, id ≠ root → ∃ kind parent, tree.kind? id = some kind ∧
    tree.parent? id = some parent ∧ parent < id ∧ id ∈ tree.listed kind parent
  /-- It is in no other list, and there it is once. -/
  count_children : ∀ id < tree.size, id ≠ root →
    ((List.range tree.size).flatMap tree.children).count id = 1
  mem_children : ∀ id parent, id ∈ tree.children parent ↔ tree.parent? id = some parent
  /-- The argument of an option is an argument, and hangs below the option. -/
  argument : ∀ option node, tree.option? option = some node →
    (tree.argument? node.argument).isSome ∧ tree.parent? node.argument = some option
  nodup_aliases : ∀ id, (tree.aliases id).Nodup
  /-- Commands and options but the root have aliases that can be given as tokens. -/
  aliases : ∀ id, id ≠ root → (tree.command? id).isSome ∨ (tree.option? id).isSome →
    ∀ text ∈ tree.aliases id, text ≠ "" ∧ ∀ c ∈ text.toList, Text.isBlank c = false
  aliases_argument : ∀ id, (tree.argument? id).isSome → tree.aliases id = []
  /-- Going from parent to parent ends, and meets the ancestors. -/
  lineage : ∀ id chain, tree.Lineage id chain ↔ chain = tree.ancestors id
  getLast?_ancestors : ∀ id < tree.size, id ≠ root → (tree.ancestors id).getLast? = some root

/-- A symbol of the tree has the aliases of its set. -/
theorem aliases_eq {id : SymbolId} {symbol : Symbol β} (h : tree.symbol? id = some symbol) :
    tree.aliases id = symbol.aliases.toList := by
  rw [aliases, h]
  rfl

/-- Aliases are distinct, since those of one symbol form a set. -/
theorem nodup_aliases (tree : CommandTree β) (id : SymbolId) : (tree.aliases id).Nodup := by
  cases hsymbol : tree.symbol? id with
  | none =>
    rw [aliases, hsymbol]
    exact List.nodup_nil
  | some symbol =>
    rw [aliases_eq hsymbol]
    exact symbol.aliases.nodup

/-- Links and aliases as edits keep them make a tree coherent. -/
theorem WellFormed.coherent (h : tree.WellFormed) (haliases : tree.AliasesFit) :
    tree.Coherent := by
  refine ⟨h.isSome_root, h.parent_root, ?_, ?_, fun id parent => h.mem_children_iff,
    fun option node => h.of_option?, tree.nodup_aliases, ?_, ?_, fun id chain => h.lineage_iff,
    fun id => h.getLast?_ancestors⟩
  · intro id hid hne
    obtain ⟨kind, hkind⟩ := Option.isSome_iff_exists.mp ((h.isSome_kind id).mpr hid)
    obtain ⟨parent, hparent⟩ := Option.isSome_iff_exists.mp (h.isSome_parent id hid hne)
    exact ⟨kind, parent, hkind, hparent, h.parent_lt hparent, h.mem_children.mpr ⟨hkind, hparent⟩⟩
  · exact fun id hid hne => h.count_children hid hne
  · intro id hne _ text htext
    cases hsymbol : tree.symbol? id with
    | none => simp [CommandTree.aliases, hsymbol] at htext
    | some symbol =>
      rw [aliases_eq hsymbol] at htext
      exact Alias.isWellFormed_iff.mp (haliases id symbol hsymbol hne text htext).2
  · intro id hargument
    obtain ⟨node, hnode⟩ := Option.isSome_iff_exists.mp hargument
    obtain ⟨symbol, hsymbol, hsome⟩ := Option.bind_eq_some_iff.mp hnode
    have hne : id ≠ root := by
      rintro rfl
      have hcommand : tree.kind? root = some .command := h.kind_root
      have hkind := kind?_eq_argument_iff.mpr hargument
      simp [hcommand] at hkind
    rw [aliases_eq hsymbol, List.eq_nil_iff_forall_not_mem]
    intro text htext
    have hnone := (haliases id symbol hsymbol hne text htext).1
    simp [hsome] at hnone

/-- Whatever is declared as the root, and whatever edits are tried on it with whatever numbers and
texts, refused ones included, the tree that results is coherent. -/
theorem coherent_editAll (decl : CommandDecl β) (edits : List (Edit β)) :
    ((new decl).editAll edits).Coherent :=
  have hreachable : Reachable ((new decl).editAll edits) := (Reachable.new decl).editAll edits
  hreachable.wellFormed.coherent hreachable.aliasesFit

end CommandTree

end CommandLine
