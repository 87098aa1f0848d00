import CommandLine.Proofs.CommandTree.InPlace

/-!
# What edits leave alone

An edit that adds something puts new symbols behind all others, and enters the first of them into
the one list of its command that is for its kind. Every other edit puts one symbol in the place of
another, which differ in what the edit is named for. All else stays as it is, so a number that was
given out once means a symbol of the same kind below the same parent after any further edits.
-/

namespace CommandLine

variable {β : Type}

/-- The command with one more child at the end of the list for the child's kind. -/
def CommandNode.enlist (kind : Kind) (id : SymbolId) (node : CommandNode β) : CommandNode β :=
  match kind with
  | .command => { node with commands := node.commands ++ [id] }
  | .option => { node with options := node.options ++ [id] }
  | .argument => { node with arguments := node.arguments ++ [id] }

/--
What an edit that adds nothing makes of the symbol that it is addressed to. Only the name of a
command is an alias as well, and goes in and out of its aliases with the name.
-/
inductive Edit.Alters (symbol : Symbol β) : Edit β → EditReply → SymbolId → Symbol β → Prop where
  | commandAction {id : SymbolId} {action : Action β} {node : CommandNode β}
      (hrole : symbol.role = .command node) :
      Alters symbol (.setAction id action) .done id
        { symbol with role := .command { node with action := some action } }
  | optionAction {id : SymbolId} {action : Action β} {node : OptionNode β}
      (hrole : symbol.role = .option node) :
      Alters symbol (.setAction id action) .done id
        { symbol with role := .option { node with action := some action } }
  | addAlias {id : SymbolId} {text : String} (hkind : symbol.role.kind ≠ .argument) :
      Alters symbol (.addAlias id text) .done id
        { symbol with aliases := symbol.aliases.insert text }
  | removeAlias {id : SymbolId} {text : String} :
      Alters symbol (.removeAlias id text) (.removed (decide (text ∈ symbol.aliases))) id
        { symbol with aliases := symbol.aliases.erase text }
  | commandName {id : SymbolId} {name : String} (hkind : symbol.role.kind = .command) :
      Alters symbol (.setName id name) .done id
        { symbol with
          explicitName := some name
          aliases := (symbol.explicitName.elim symbol.aliases symbol.aliases.erase).insert name }
  | otherName {id : SymbolId} {name : String} (hkind : symbol.role.kind ≠ .command) :
      Alters symbol (.setName id name) .done id { symbol with explicitName := some name }
  | setDescription {id : SymbolId} {text : String} :
      Alters symbol (.setDescription id text) .done id { symbol with description := some text }
  | setHidden {id : SymbolId} {hidden : Bool} :
      Alters symbol (.setHidden id hidden) .done id { symbol with hidden }

namespace CommandTree

variable {before between after tree next : CommandTree β} {edit : Edit β} {reply : EditReply}

/-- Every number of a tree means a symbol of the same kind below the same parent in another. -/
structure Keeps (before after : CommandTree β) : Prop where
  size_le : before.size ≤ after.size
  kind : ∀ id < before.size, after.kind? id = before.kind? id
  parent : ∀ id < before.size, after.parent? id = before.parent? id

/--
A tree with some symbols more at its end. Of the others only the parent of the first one changed,
which now has it in the list for its kind.
-/
structure Appends (before after : CommandTree β) (parent : SymbolId) (kind : Kind)
    (added : List (Symbol β)) : Prop where
  size : after.size = before.size + added.length
  added : ∀ place, after.symbol? (before.size + place) = added[place]?
  others : ∀ id < before.size, id ≠ parent → after.symbol? id = before.symbol? id
  parent : ∃ symbol node, before.symbol? parent = some symbol ∧ symbol.role = .command node ∧
    after.symbol? parent =
      some { symbol with role := .command (node.enlist kind before.size) }

/-- A tree with one symbol in the place of another. -/
structure Replaces (before after : CommandTree β) (id : SymbolId) (symbol : Symbol β) : Prop where
  size : after.size = before.size
  others : ∀ other, other ≠ id → after.symbol? other = before.symbol? other
  replaced : after.symbol? id = some symbol

/-- All that an edit does to a tree, by the kind of the edit, and what it replies. -/
inductive Does (before after : CommandTree β) : Edit β → EditReply → Prop where
  | addCommand {parent : SymbolId} {decl : CommandDecl β}
      (h : before.Appends after parent .command [decl.symbol (some parent)]) :
      Does before after (.addCommand parent decl) (.added before.size)
  | addOption {parent : SymbolId} {decl : OptionDecl β} {inherited : Bool}
      (h : before.Appends after parent .option
        [decl.symbol inherited (before.size + 1) parent, decl.slot.symbol true before.size]) :
      Does before after (.addOption parent decl inherited) (.added before.size)
  | addArgument {parent : SymbolId} {decl : ArgumentDecl}
      (h : before.Appends after parent .argument [decl.symbol false parent]) :
      Does before after (.addArgument parent decl) (.added before.size)
  | alter {edit : Edit β} {reply : EditReply} {id : SymbolId} {symbol altered : Symbol β}
      (hsymbol : before.symbol? id = some symbol) (halters : edit.Alters symbol reply id altered)
      (h : before.Replaces after id altered) :
      Does before after edit reply

/-! ## One edit -/

/-- Symbols pushed one after another have the next numbers, and the others keep theirs. -/
theorem symbol?_foldl_push (added : List (Symbol β)) (id : Nat) :
    (added.foldl push tree).symbol? id =
      if id < tree.size then tree.symbol? id else added[id - tree.size]? := by
  induction added generalizing tree with
  | nil =>
    split
    · rfl
    · rw [List.foldl_nil, List.getElem?_nil, Option.eq_none_iff_forall_ne_some]
      intro symbol hsymbol
      exact absurd (lt_size_of_symbol? hsymbol) ‹_›
  | cons symbol added ih =>
    rw [List.foldl_cons, ih, size_push, symbol?_push]
    rcases Nat.lt_trichotomy id tree.size with hlt | rfl | hgt
    · rw [if_pos (Nat.lt_succ_of_lt hlt), if_neg (Nat.ne_of_lt hlt), if_pos hlt]
    · simp
    · have hplace : id - tree.size = id - (tree.size + 1) + 1 := by omega
      rw [if_neg (Nat.not_lt.mpr hgt), if_neg (Nat.not_lt.mpr (Nat.le_of_lt hgt)), hplace,
        List.getElem?_cons_succ]

/-- Every pushed symbol is one more. -/
theorem size_foldl_push (added : List (Symbol β)) :
    (added.foldl push tree).size = tree.size + added.length := by
  induction added generalizing tree with
  | nil => rfl
  | cons symbol added ih =>
    rw [List.foldl_cons, ih, size_push, List.length_cons]
    omega

/-- Symbols can be appended below a command. -/
theorem appends_foldl_push {parent : SymbolId} {node : CommandNode β}
    (h : tree.command? parent = some node) (kind : Kind) (added : List (Symbol β)) :
    tree.Appends ((added.foldl push tree).modify parent
      (Symbol.onCommand (CommandNode.enlist kind tree.size))) parent kind added := by
  have hlt := lt_size_of_command? h
  obtain ⟨symbol, hsymbol, hcommand⟩ := Option.bind_eq_some_iff.mp h
  have hrole : symbol.role = .command node := by
    unfold Symbol.command? at hcommand
    split at hcommand <;> simp_all
  refine ⟨?_, fun place => ?_, fun id hid hne => ?_, symbol, node, hsymbol, hrole, ?_⟩
  · rw [size_modify, size_foldl_push]
  · have hne : tree.size + place ≠ parent := Nat.ne_of_gt (Nat.lt_add_right place hlt)
    have hge : ¬ tree.size + place < tree.size := by omega
    rw [symbol?_modify, if_neg hne, symbol?_foldl_push, if_neg hge, Nat.add_sub_cancel_left]
  · rw [symbol?_modify, if_neg hne, symbol?_foldl_push, if_pos hid]
  · rw [symbol?_modify, if_pos rfl, symbol?_foldl_push, if_pos hlt, hsymbol, Option.map_some,
      Symbol.onCommand, hrole]

/-- A symbol that is there can be replaced. -/
theorem replaces_modify {id : SymbolId} {symbol : Symbol β} (h : tree.symbol? id = some symbol)
    (change : Symbol β → Symbol β) : tree.Replaces (tree.modify id change) id (change symbol) := by
  refine ⟨size_modify _ _, fun other hne => ?_, ?_⟩
  · rw [symbol?_modify, if_neg hne]
  · rw [symbol?_modify, if_pos rfl, h, Option.map_some]

/-- A new name is what a name is for the symbol's kind. -/
theorem alters_rename (symbol : Symbol β) (id : SymbolId) (name : String) :
    (Edit.setName id name).Alters symbol .done id (symbol.rename name) := by
  unfold Symbol.rename
  split
  · exact .commandName (by simp [Role.kind, *])
  · refine .otherName fun hkind => ?_
    cases hrole : symbol.role <;> simp_all [Role.kind]

/-- A new action is all that an action changes. -/
theorem alters_withAction? {symbol altered : Symbol β} {action : Action β}
    (h : symbol.withAction? action = some altered) (id : SymbolId) :
    (Edit.setAction id action).Alters symbol .done id altered := by
  unfold Symbol.withAction? at h
  split at h
  · obtain rfl := Option.some.inj h
    exact .commandAction ‹_›
  · obtain rfl := Option.some.inj h
    exact .optionAction ‹_›
  · simp at h

/-- An edit that is carried out does what edits of its kind do. -/
theorem Edited.does (h : Edited tree edit reply next) : tree.Does next edit reply := by
  cases h with
  | addCommand hparent _ => exact .addCommand (appends_foldl_push hparent .command [_])
  | addOption hparent _ _ => exact .addOption (appends_foldl_push hparent .option [_, _])
  | addArgument hparent => exact .addArgument (appends_foldl_push hparent .argument [_])
  | setAction hsymbol hchanged =>
    exact .alter hsymbol (alters_withAction? hchanged _) (replaces_modify hsymbol _)
  | @addAlias id text symbol _ hsymbol hkind =>
    refine .alter hsymbol (.addAlias fun hargument => ?_) (replaces_modify hsymbol _)
    unfold Symbol.argument? at hkind
    cases hrole : symbol.role <;> simp [hrole, Role.kind] at hkind hargument
  | removeAlias hsymbol => exact .alter hsymbol .removeAlias (replaces_modify hsymbol _)
  | setName hsymbol _ =>
    exact .alter hsymbol (alters_rename _ _ _) (replaces_modify hsymbol _)
  | setDescription hsymbol => exact .alter hsymbol .setDescription (replaces_modify hsymbol _)
  | setHidden hsymbol => exact .alter hsymbol .setHidden (replaces_modify hsymbol _)

/-! ## What stays -/

/-- An altered symbol is of the same kind and has the same parent. -/
theorem alters_kind_parent {symbol altered : Symbol β} {id : SymbolId}
    (h : edit.Alters symbol reply id altered) :
    altered.role.kind = symbol.role.kind ∧ altered.parent = symbol.parent := by
  cases h with
  | commandAction hrole => exact ⟨by rw [hrole]; rfl, rfl⟩
  | optionAction hrole => exact ⟨by rw [hrole]; rfl, rfl⟩
  | addAlias _ => exact ⟨rfl, rfl⟩
  | removeAlias => exact ⟨rfl, rfl⟩
  | commandName _ => exact ⟨rfl, rfl⟩
  | otherName _ => exact ⟨rfl, rfl⟩
  | setDescription => exact ⟨rfl, rfl⟩
  | setHidden => exact ⟨rfl, rfl⟩

namespace Keeps

/-- A tree keeps its own numbers. -/
theorem refl (tree : CommandTree β) : tree.Keeps tree :=
  ⟨Nat.le_refl _, fun _ _ => rfl, fun _ _ => rfl⟩

/-- Numbers that two edits keep one after the other are kept by both together. -/
theorem trans (first : before.Keeps between) (second : between.Keeps after) :
    before.Keeps after where
  size_le := Nat.le_trans first.size_le second.size_le
  kind id hid := (second.kind id (Nat.lt_of_lt_of_le hid first.size_le)).trans (first.kind id hid)
  parent id hid :=
    (second.parent id (Nat.lt_of_lt_of_le hid first.size_le)).trans (first.parent id hid)

/-- Numbers are kept if each symbol keeps its kind and its parent. -/
theorem of_symbol (hsize : before.size ≤ after.size)
    (h : ∀ id symbol, before.symbol? id = some symbol → ∃ other, after.symbol? id = some other ∧
      other.role.kind = symbol.role.kind ∧ other.parent = symbol.parent) : before.Keeps after := by
  have hfound : ∀ id < before.size, ∃ symbol other, before.symbol? id = some symbol ∧
      after.symbol? id = some other ∧ other.role.kind = symbol.role.kind ∧
      other.parent = symbol.parent := by
    intro id hid
    obtain ⟨symbol, hsymbol⟩ := Option.isSome_iff_exists.mp (isSome_symbol?_iff.mpr hid)
    obtain ⟨other, hother, hsame⟩ := h id symbol hsymbol
    exact ⟨symbol, other, hsymbol, hother, hsame⟩
  refine ⟨hsize, fun id hid => ?_, fun id hid => ?_⟩
  · obtain ⟨symbol, other, hsymbol, hother, hkind, -⟩ := hfound id hid
    rw [kind?, kind?, hsymbol, hother, Option.map_some, Option.map_some, hkind]
  · obtain ⟨symbol, other, hsymbol, hother, -, hparent⟩ := hfound id hid
    rw [parent?, parent?, hsymbol, hother, Option.bind_some, Option.bind_some, hparent]

end Keeps

/-- Appended symbols leave the numbers of the others alone. -/
theorem Appends.keeps {parent : SymbolId} {kind : Kind} {added : List (Symbol β)}
    (h : before.Appends after parent kind added) : before.Keeps after := by
  refine .of_symbol (by rw [h.size]; omega) fun id symbol hsymbol => ?_
  by_cases hid : id = parent
  · subst id
    obtain ⟨found, node, hfound, hrole, hafter⟩ := h.parent
    obtain rfl : found = symbol := Option.some.inj (hfound.symm.trans hsymbol)
    exact ⟨_, hafter, by rw [hrole]; rfl, rfl⟩
  · rw [h.others id (lt_size_of_symbol? hsymbol) hid]
    exact ⟨symbol, hsymbol, rfl, rfl⟩

/-- Whatever an edit does, all numbers keep their meaning. -/
theorem Does.keeps (h : before.Does after edit reply) : before.Keeps after := by
  cases h with
  | addCommand h => exact h.keeps
  | addOption h => exact h.keeps
  | addArgument h => exact h.keeps
  | @alter edit reply id symbol altered hsymbol halters h =>
    refine .of_symbol (Nat.le_of_eq h.size.symm) fun other found hfound => ?_
    by_cases hother : other = id
    · subst other
      obtain rfl : symbol = found := Option.some.inj (hsymbol.symm.trans hfound)
      exact ⟨altered, h.replaced, alters_kind_parent halters⟩
    · rw [h.others other hother]
      exact ⟨found, hfound, rfl, rfl⟩

/-- A sequence of edits, refused or not, keeps the numbers that were given out before it. -/
theorem keeps_editAll (tree : CommandTree β) (edits : List (Edit β)) :
    tree.Keeps (tree.editAll edits) := by
  induction edits generalizing tree with
  | nil => exact .refl tree
  | cons edit edits ih =>
    unfold editAll
    split
    · exact (edited_of_edit ‹_›).does.keeps.trans (ih _)
    · exact ih tree

/-! ## What holds of every symbol -/

/-- What holds of every symbol holds of every symbol after some were appended, if it holds of these
and does not depend on what a command lists. -/
theorem Appends.forall_symbol {P : Symbol β → Prop} {parent : SymbolId} {kind : Kind}
    {added : List (Symbol β)} (h : before.Appends after parent kind added)
    (hbefore : ∀ id symbol, before.symbol? id = some symbol → P symbol)
    (hadded : ∀ symbol ∈ added, P symbol)
    (henlist : ∀ symbol node kind id, symbol.role = .command node → P symbol →
      P { symbol with role := .command (CommandNode.enlist kind id node) }) :
    ∀ id symbol, after.symbol? id = some symbol → P symbol := by
  intro id symbol hsymbol
  by_cases hid : id < before.size
  · by_cases hparent : id = parent
    · subst id
      obtain ⟨old, node, hold, hrole, hnew⟩ := h.parent
      obtain rfl := Option.some.inj (hnew.symm.trans hsymbol)
      exact henlist old node kind _ hrole (hbefore parent old hold)
    · rw [h.others id hid hparent] at hsymbol
      exact hbefore id symbol hsymbol
  · obtain ⟨place, rfl⟩ := Nat.exists_eq_add_of_le (Nat.le_of_not_lt hid)
    rw [h.added] at hsymbol
    exact hadded symbol (List.mem_of_getElem? hsymbol)

/-- What holds of every declared symbol, and is kept by every change of a symbol, holds of all
symbols of a tree that edits make. -/
theorem Reachable.forall_symbol {P : Symbol β → Prop} (h : Reachable tree)
    (hcommand : ∀ (decl : CommandDecl β) parent, P (decl.symbol parent))
    (hoption : ∀ (decl : OptionDecl β) inherited argument parent,
      P (decl.symbol inherited argument parent))
    (hargument : ∀ (decl : ArgumentDecl) forOption parent, P (decl.symbol forOption parent))
    (henlist : ∀ symbol node kind id, symbol.role = .command node → P symbol →
      P { symbol with role := .command (CommandNode.enlist kind id node) })
    (halters : ∀ (edit : Edit β) symbol reply id altered,
      edit.Alters symbol reply id altered → P symbol → P altered) :
    ∀ id symbol, tree.symbol? id = some symbol → P symbol := by
  induction h with
  | new decl =>
    intro id symbol hsymbol
    rw [symbol?_new] at hsymbol
    split at hsymbol
    · exact Option.some.inj hsymbol ▸ hcommand decl none
    · simp at hsymbol
  | @edit before after edit reply _ hedit ih =>
    cases (edited_of_edit hedit).does with
    | addCommand happends => exact happends.forall_symbol ih (by simp [hcommand]) henlist
    | addOption happends =>
      exact happends.forall_symbol ih (by simp [hoption, hargument]) henlist
    | addArgument happends => exact happends.forall_symbol ih (by simp [hargument]) henlist
    | @alter _ _ target old altered hold haltered hreplaces =>
      intro id symbol hsymbol
      by_cases hid : id = target
      · subst id
        obtain rfl := Option.some.inj (hreplaces.replaced.symm.trans hsymbol)
        exact halters _ _ _ _ _ haltered (ih _ _ hold)
      · rw [hreplaces.others id hid] at hsymbol
        exact ih id symbol hsymbol

end CommandTree

namespace InPlace

open CommandTree

/-- Edits in place one after another, refused or not, make the tree that the edits make. -/
theorem foldl_perform (tree : CommandTree β) (edits : List (Edit β)) :
    edits.foldl (fun tree edit => (outcome (perform edit) tree).2) tree = tree.editAll edits := by
  induction edits generalizing tree with
  | nil => rfl
  | cons edit edits ih =>
    rw [List.foldl_cons, ih, outcome_perform, editAll]
    cases tree.edit edit <;> rfl

/--
Edits in place are atomic and local. One that is refused leaves the tree exactly as it was. One
that is carried out keeps the kind and the parent of every symbol that was there before, and either
appends symbols and lists the first of them once, or changes what it is named for in one symbol.
-/
theorem perform_refused_or_local (tree : CommandTree β) (edit : Edit β) :
    (∃ error, outcome (perform edit) tree = (.error error, tree) ∧ tree.edit edit = .error error) ∨
      ∃ reply next, outcome (perform edit) tree = (.ok reply, next) ∧
        tree.edit edit = .ok (reply, next) ∧ tree.Keeps next ∧ tree.Does next edit reply := by
  have houtcome := outcome_perform tree edit
  cases hedit : tree.edit edit with
  | error error =>
    rw [hedit] at houtcome
    exact Or.inl ⟨error, houtcome, rfl⟩
  | ok result =>
    obtain ⟨reply, next⟩ := result
    rw [hedit] at houtcome
    have hdoes := (edited_of_edit hedit).does
    exact Or.inr ⟨reply, next, houtcome, rfl, hdoes.keeps, hdoes⟩

end InPlace

end CommandLine
