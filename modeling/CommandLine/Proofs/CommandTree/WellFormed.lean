import CommandLine.Proofs.CommandTree.Editing
import CommandLine.Proofs.CommandTree.Forest

/-!
# Well-formed symbol trees

The links of every tree that edits can make form a forest. Edits in place keep all links; a new
command or positional argument is attached to its command, and a new option together with its
argument in two steps.

So a number found in a list of a symbol can be looked up as what the list says it is, and it is
listed nowhere else.
-/

namespace CommandLine.CommandTree

variable {β : Type} {tree : CommandTree β}

/-! ## Trees with one symbol more or one symbol changed -/

/-- A symbol's number is below the size of its tree. -/
theorem lt_size_of_symbol? {id : SymbolId} {symbol : Symbol β} (h : tree.symbol? id = some symbol) :
    id < tree.size := by
  rw [← isSome_symbol?_iff, h]
  rfl

/-- The symbols of a new tree are its root. -/
theorem symbol?_new (decl : CommandDecl β) (id : SymbolId) :
    (new decl).symbol? id = if id = root then some (decl.symbol none) else none := by
  unfold new symbol? root
  cases id <;> simp

/-- A pushed symbol has the next number, and the others keep theirs. -/
theorem symbol?_push (symbol : Symbol β) (id : SymbolId) :
    (tree.push symbol).symbol? id = if id = tree.size then some symbol else tree.symbol? id := by
  rw [symbol?, push, Array.getElem?_push]
  rfl

/-- A change reaches the symbol it is addressed to and no other. -/
theorem symbol?_modify (target : SymbolId) (change : Symbol β → Symbol β) (id : SymbolId) :
    (tree.modify target change).symbol? id =
      if id = target then (tree.symbol? id).map change else tree.symbol? id := by
  simp only [modify, symbol?, Array.getElem?_modify, eq_comm]

/-- A pushed symbol is one symbol more. -/
@[simp] theorem size_push (symbol : Symbol β) : (tree.push symbol).size = tree.size + 1 := by
  simp [push, size]

/-- A change adds no symbol and removes none. -/
@[simp] theorem size_modify (target : SymbolId) (change : Symbol β → Symbol β) :
    (tree.modify target change).size = tree.size := by
  simp [modify, size]

/-! ## Edits keep the forest -/

/-- A new tree is a root command without children. -/
theorem wellFormed_new (decl : CommandDecl β) : (new decl).WellFormed := by
  have hlisted : ∀ kind id, (new decl).listed kind id = [] := by
    intro kind id
    rw [listed, symbol?_new]
    split
    · cases kind <;> rfl
    · rfl
  have hparent : ∀ id, (new decl).parent? id = none := by
    intro id
    rw [parent?, symbol?_new]
    split <;> rfl
  refine ⟨?_, rfl, rfl, ?_, ?_, ?_, ?_⟩
  · intro id
    rw [kind?, Option.isSome_map, isSome_symbol?_iff]
  · intro id hid hne
    exact absurd (Nat.lt_one_iff.mp hid) hne
  · intro id parent hid
    simp [hparent] at hid
  · intro kind id parent
    simp [hlisted, hparent]
  · intro kind id
    simp [hlisted]

/-- A change that keeps the links of its symbol keeps the forest. -/
theorem WellFormed.modify (h : tree.WellFormed) {target : SymbolId} {change : Symbol β → Symbol β}
    (hlinks : ∀ symbol, tree.symbol? target = some symbol → (change symbol).SameLinks symbol) :
    (tree.modify target change).WellFormed := by
  have hsymbol : ∀ id, (tree.modify target change).symbol? id = tree.symbol? id ∨
      ∃ symbol, tree.symbol? id = some symbol ∧
        (tree.modify target change).symbol? id = some (change symbol) ∧
        (change symbol).SameLinks symbol := by
    intro id
    rw [symbol?_modify]
    split
    · subst id
      cases hid : tree.symbol? target with
      | none => exact Or.inl rfl
      | some symbol => exact Or.inr ⟨symbol, rfl, rfl, hlinks symbol hid⟩
    · exact Or.inl rfl
  have hkind : (tree.modify target change).kind? = tree.kind? := by
    funext id
    unfold kind?
    obtain heq | ⟨symbol, hold, hnew, hsame⟩ := hsymbol id
    · rw [heq]
    · simp [hold, hnew, hsame.kind]
  have hparent : (tree.modify target change).parent? = tree.parent? := by
    funext id
    unfold parent?
    obtain heq | ⟨symbol, hold, hnew, hsame⟩ := hsymbol id
    · rw [heq]
    · simp [hold, hnew, hsame.parent]
  have hlisted : (tree.modify target change).listed = tree.listed := by
    funext kind id
    unfold listed
    obtain heq | ⟨symbol, hold, hnew, hsame⟩ := hsymbol id
    · rw [heq]
    · simp [hold, hnew, hsame.listed]
  unfold WellFormed
  rw [size_modify, hkind, hparent, hlisted]
  exact h

section Growth

variable (symbol : Symbol β) (target : SymbolId) (change : CommandNode β → CommandNode β)

/-- A pushed symbol brings its kind. -/
theorem kind?_push (id : SymbolId) :
    (tree.push symbol).kind? id = if id = tree.size then some symbol.role.kind else tree.kind? id := by
  unfold kind?
  rw [symbol?_push]
  split <;> rfl

/-- A pushed symbol brings its parent. -/
theorem parent?_push (id : SymbolId) :
    (tree.push symbol).parent? id = if id = tree.size then symbol.parent else tree.parent? id := by
  unfold parent?
  rw [symbol?_push]
  split <;> rfl

/-- A pushed symbol brings its lists. -/
theorem listed_push (kind : Kind) (id : SymbolId) :
    (tree.push symbol).listed kind id =
      if id = tree.size then symbol.listed kind else tree.listed kind id := by
  unfold listed
  rw [symbol?_push]
  split <;> rfl

/-- A change of what only commands have keeps every kind. -/
theorem kind?_onCommand (id : SymbolId) :
    (tree.modify target (Symbol.onCommand change)).kind? id = tree.kind? id := by
  unfold kind?
  rw [symbol?_modify]
  split
  · cases tree.symbol? id with
    | none => rfl
    | some found => cases hrole : found.role <;> simp [Symbol.onCommand, hrole, Role.kind]
  · rfl

/-- A change of what only commands have keeps every parent. -/
theorem parent?_onCommand (id : SymbolId) :
    (tree.modify target (Symbol.onCommand change)).parent? id = tree.parent? id := by
  unfold parent?
  rw [symbol?_modify]
  split
  · cases tree.symbol? id with
    | none => rfl
    | some found => cases hrole : found.role <;> simp [Symbol.onCommand, hrole]
  · rfl

/-- A change of what only commands have keeps the lists of every other symbol. -/
theorem listed_onCommand_of_ne (kind : Kind) {id : SymbolId} (hne : id ≠ target) :
    (tree.modify target (Symbol.onCommand change)).listed kind id = tree.listed kind id := by
  unfold listed
  rw [symbol?_modify, if_neg hne]

end Growth

/-- A list of a command after one list of the command was extended by a new child. -/
theorem listed_onCommand_self {target : SymbolId} {node : CommandNode β}
    {change : CommandNode β → CommandNode β} (new : Kind) (child : SymbolId)
    (htarget : tree.command? target = some node)
    (hchange : ∀ (symbol : Symbol β) (kind : Kind), symbol.role = .command node →
      (symbol.onCommand change).listed kind =
        if kind = new then symbol.listed kind ++ [child] else symbol.listed kind)
    (kind : Kind) :
    (tree.modify target (Symbol.onCommand change)).listed kind target =
      if kind = new then tree.listed kind target ++ [child] else tree.listed kind target := by
  unfold listed
  obtain ⟨symbol, hsymbol, hcommand⟩ := Option.bind_eq_some_iff.mp htarget
  rw [symbol?_modify, if_pos rfl, hsymbol]
  have hrole : symbol.role = .command node := by
    unfold Symbol.command? at hcommand
    split at hcommand <;> simp_all
  exact hchange symbol kind hrole

/-- A command is a symbol of its tree. -/
theorem lt_size_of_command? {id : SymbolId} {node : CommandNode β} (h : tree.command? id = some node) :
    id < tree.size := by
  obtain ⟨symbol, hsymbol, _⟩ := Option.bind_eq_some_iff.mp h
  exact lt_size_of_symbol? hsymbol

/-- A command is a symbol. -/
theorem isSome_symbol?_of_command? {id : SymbolId} (h : (tree.command? id).isSome) :
    (tree.symbol? id).isSome := by
  unfold command? at h
  cases hsymbol : tree.symbol? id with
  | none => simp [hsymbol] at h
  | some symbol => rfl

/-- The commands of a tree are still there after a symbol was pushed. -/
theorem command?_push {symbol : Symbol β} {id : SymbolId} {node : CommandNode β}
    (h : tree.command? id = some node) : (tree.push symbol).command? id = some node := by
  rw [command?, symbol?_push, if_neg (Nat.ne_of_lt (lt_size_of_command? h)), ← command?, h]

/-- A number that no symbol has lists nothing. -/
theorem listed_of_size_le (kind : Kind) {id : SymbolId} (h : tree.size ≤ id) :
    tree.listed kind id = [] := by
  have hnone : tree.symbol? id = none := by
    rw [← Option.not_isSome_iff_eq_none, isSome_symbol?_iff]
    exact Nat.not_lt.mpr h
  rw [listed, hnone]
  rfl

/-- A childless symbol that is entered into the list of its kind keeps a tree well formed. -/
theorem WellFormed.attach (h : tree.WellFormed) {symbol : Symbol β} {target : SymbolId}
    {node : CommandNode β} {change : CommandNode β → CommandNode β}
    (htarget : tree.command? target = some node) (hparent : symbol.parent = some target)
    (hchildless : ∀ kind, symbol.listed kind = [])
    (hchange : ∀ (found : Symbol β) (kind : Kind), found.role = .command node →
      (found.onCommand change).listed kind =
        if kind = symbol.role.kind then found.listed kind ++ [tree.size] else found.listed kind) :
    ((tree.push symbol).modify target (Symbol.onCommand change)).WellFormed := by
  have hlt := lt_size_of_command? htarget
  unfold WellFormed
  rw [size_modify, size_push]
  refine Forest.attach h symbol.role.kind hlt ?_ ?_ ?_
  · intro id
    rw [kind?_onCommand, kind?_push]
  · intro id
    rw [parent?_onCommand, parent?_push, hparent]
  · intro kind id
    by_cases hid : id = target
    · subst id
      rw [listed_onCommand_self _ _ (command?_push htarget) hchange, listed_push,
        if_neg (Nat.ne_of_lt hlt)]
      simp
    · rw [listed_onCommand_of_ne _ _ _ hid, listed_push]
      simp only [hid, false_and, if_false]
      split
      · subst id
        rw [hchildless, listed_of_size_le kind (Nat.le_refl _)]
      · rfl

/-- A new option with its argument keeps a tree well formed. -/
theorem WellFormed.addOption (h : tree.WellFormed) {decl : OptionDecl β} {inherited : Bool}
    {target : SymbolId} {node : CommandNode β} (htarget : tree.command? target = some node) :
    (((tree.push (decl.symbol inherited (tree.size + 1) target)).push
      (decl.slot.symbol true tree.size)).modify target
        (Symbol.onCommand (CommandNode.addOption tree.size))).WellFormed := by
  have hlt := lt_size_of_command? htarget
  -- The option alone, still without the argument it will list.
  have hoption := Forest.attach h .option hlt (fun _ => rfl) (fun _ => rfl) (fun _ _ => rfl)
  unfold WellFormed
  rw [size_modify, size_push, size_push]
  refine Forest.attach hoption .argument (Nat.lt_succ_self tree.size) ?_ ?_ ?_
  · intro id
    rw [kind?_onCommand, kind?_push, kind?_push, size_push]
    rfl
  · intro id
    rw [parent?_onCommand, parent?_push, parent?_push, size_push]
    rfl
  · intro kind id
    by_cases hid : id = target
    · subst id
      rw [listed_onCommand_self .option tree.size (command?_push (command?_push htarget))]
      · rw [listed_push, listed_push, size_push]
        have hne : target ≠ tree.size + 1 := Nat.ne_of_lt (Nat.lt_succ_of_lt hlt)
        simp only [hne, Nat.ne_of_lt hlt, false_and, true_and, if_false]
      · intro found kind hrole
        cases kind <;> simp [Symbol.onCommand, Symbol.listed, CommandNode.addOption, hrole]
    · rw [listed_onCommand_of_ne _ _ _ hid, listed_push, listed_push, size_push]
      simp only [hid, false_and, if_false]
      by_cases hnew : id < tree.size
      · have hargument : id ≠ tree.size + 1 := Nat.ne_of_lt (Nat.lt_succ_of_lt hnew)
        simp only [hargument, Nat.ne_of_lt hnew, false_and, if_false]
      · rw [listed_of_size_le kind (Nat.le_of_not_lt hnew)]
        by_cases hargument : id = tree.size + 1
        · subst id
          cases kind <;> simp [Symbol.listed, ArgumentDecl.symbol]
        · by_cases hoption : id = tree.size
          · subst id
            cases kind <;> simp [Symbol.listed, OptionDecl.symbol]
          · simp [hargument, hoption]

/-- A change that leaves parent and role alone keeps the links. -/
theorem sameLinks_of_eq {changed symbol : Symbol β} (hparent : changed.parent = symbol.parent)
    (hrole : changed.role = symbol.role) : changed.SameLinks symbol := by
  refine ⟨by rw [hrole], hparent, fun kind => ?_⟩
  unfold Symbol.listed
  rw [hrole]

/-- An action is not part of the links. -/
theorem sameLinks_withAction? {action : Action β} {symbol changed : Symbol β}
    (h : symbol.withAction? action = some changed) : changed.SameLinks symbol := by
  unfold Symbol.withAction? at h
  cases hrole : symbol.role <;> rw [hrole] at h
  · obtain rfl := Option.some.inj h
    exact ⟨by rw [hrole]; rfl, rfl, fun kind => by cases kind <;> simp [Symbol.listed, hrole]⟩
  · obtain rfl := Option.some.inj h
    exact ⟨by rw [hrole]; rfl, rfl, fun kind => by cases kind <;> simp [Symbol.listed, hrole]⟩
  · simp at h

/-- One edit keeps a tree well formed. -/
theorem WellFormed.edited (h : tree.WellFormed) {edit : Edit β} {reply : EditReply}
    {next : CommandTree β} (hedit : Edited tree edit reply next) : next.WellFormed := by
  cases hedit with
  | addCommand hparent hchecked =>
    refine h.attach hparent rfl (fun kind => by cases kind <;> rfl) fun found kind hrole => ?_
    cases kind <;> simp [Symbol.onCommand, Symbol.listed, CommandNode.addCommand, hrole,
      CommandDecl.symbol, Role.kind]
  | addOption hparent hnonempty hchecked => exact h.addOption hparent
  | addArgument hparent =>
    refine h.attach hparent rfl (fun kind => by cases kind <;> rfl) fun found kind hrole => ?_
    cases kind <;> simp [Symbol.onCommand, Symbol.listed, CommandNode.addArgument, hrole,
      ArgumentDecl.symbol, Role.kind]
  | setAction hsymbol hchanged =>
    refine h.modify fun symbol hfound => ?_
    obtain rfl := Option.some.inj (hsymbol.symm.trans hfound)
    exact sameLinks_withAction? hchanged
  | addAlias hchecked hsymbol hkind => exact h.modify fun _ _ => sameLinks_of_eq rfl rfl
  | removeAlias hsymbol => exact h.modify fun _ _ => sameLinks_of_eq rfl rfl
  | setName hsymbol hchecked =>
    refine h.modify fun symbol _ => ?_
    unfold Symbol.rename
    split <;> exact sameLinks_of_eq rfl rfl
  | setDescription hsymbol => exact h.modify fun _ _ => sameLinks_of_eq rfl rfl
  | setHidden hsymbol => exact h.modify fun _ _ => sameLinks_of_eq rfl rfl

/-- Every tree that edits can make is well formed. -/
theorem Reachable.wellFormed (h : Reachable tree) : tree.WellFormed := by
  induction h with
  | new decl => exact wellFormed_new decl
  | edit _ hedit ih => exact ih.edited (edited_of_edit hedit)

/-! ## Reading the lists of a well-formed tree -/

/-- The commands are the symbols of that kind. -/
theorem kind?_eq_command_iff {id : SymbolId} :
    tree.kind? id = some .command ↔ (tree.command? id).isSome := by
  unfold kind? command?
  cases tree.symbol? id with
  | none => simp
  | some symbol => cases hrole : symbol.role <;> simp [Symbol.command?, hrole, Role.kind]

/-- The options are the symbols of that kind. -/
theorem kind?_eq_option_iff {id : SymbolId} :
    tree.kind? id = some .option ↔ (tree.option? id).isSome := by
  unfold kind? option?
  cases tree.symbol? id with
  | none => simp
  | some symbol => cases hrole : symbol.role <;> simp [Symbol.option?, hrole, Role.kind]

/-- The arguments are the symbols of that kind. -/
theorem kind?_eq_argument_iff {id : SymbolId} :
    tree.kind? id = some .argument ↔ (tree.argument? id).isSome := by
  unfold kind? argument?
  cases tree.symbol? id with
  | none => simp
  | some symbol => cases hrole : symbol.role <;> simp [Symbol.argument?, hrole, Role.kind]

/-- The lists of a symbol by kind, as a command or as an option. -/
theorem listed_eq (tree : CommandTree β) (id : SymbolId) :
    tree.listed .command id = tree.commands id ∧ tree.listed .option id = tree.options id ∧
      tree.listed .argument id =
        tree.arguments id ++ ((tree.option? id).map (·.argument)).toList := by
  unfold listed commands options arguments option? command?
  cases tree.symbol? id with
  | none => exact ⟨rfl, rfl, rfl⟩
  | some symbol =>
    cases hrole : symbol.role <;>
      simp [Symbol.listed, Symbol.command?, Symbol.option?, hrole]

/-- Only commands list positional arguments, so no option does. -/
theorem option?_eq_none_of_mem_arguments {id parent : SymbolId} (h : id ∈ tree.arguments parent) :
    tree.option? parent = none := by
  unfold arguments command? at h
  unfold option?
  cases hsymbol : tree.symbol? parent with
  | none => rfl
  | some symbol =>
    rw [hsymbol] at h
    cases hrole : symbol.role <;> simp [Symbol.command?, Symbol.option?, hrole] at h ⊢

namespace WellFormed

variable {id parent option : SymbolId} {node : OptionNode β}

/-- The root is a command. -/
theorem isSome_root (h : tree.WellFormed) : (tree.command? root).isSome :=
  kind?_eq_command_iff.mp h.kind_root

/-- The subcommands of a command are the commands below it. -/
theorem mem_commands (h : tree.WellFormed) :
    id ∈ tree.commands parent ↔ (tree.command? id).isSome ∧ tree.parent? id = some parent := by
  rw [← (listed_eq tree parent).1, h.mem_children, kind?_eq_command_iff]

/-- The options of a command are the options below it. -/
theorem mem_options (h : tree.WellFormed) :
    id ∈ tree.options parent ↔ (tree.option? id).isSome ∧ tree.parent? id = some parent := by
  rw [← (listed_eq tree parent).2.1, h.mem_children, kind?_eq_option_iff]

/-- The positional arguments of a command are arguments below it. -/
theorem of_mem_arguments (h : tree.WellFormed) (hid : id ∈ tree.arguments parent) :
    (tree.argument? id).isSome ∧ tree.parent? id = some parent := by
  rw [← kind?_eq_argument_iff]
  refine h.mem_children.mp ?_
  rw [(listed_eq tree parent).2.2]
  exact List.mem_append_left _ hid

/-- No positional argument is listed twice. -/
theorem nodup_arguments (h : tree.WellFormed) (parent : SymbolId) : (tree.arguments parent).Nodup := by
  have hall := h.nodup_children .argument parent
  rw [(listed_eq tree parent).2.2] at hall
  exact hall.of_append_left

/-- A positional argument belongs to one command. -/
theorem eq_of_mem_arguments (h : tree.WellFormed) {other : SymbolId} (hid : id ∈ tree.arguments parent)
    (hother : id ∈ tree.arguments other) : parent = other := by
  have hparent := (h.of_mem_arguments hid).2
  rw [(h.of_mem_arguments hother).2] at hparent
  exact (Option.some.inj hparent).symm

/-- The argument of an option is an argument below it. -/
theorem of_option? (h : tree.WellFormed) (hoption : tree.option? option = some node) :
    (tree.argument? node.argument).isSome ∧ tree.parent? node.argument = some option := by
  rw [← kind?_eq_argument_iff]
  refine h.mem_children.mp ?_
  rw [(listed_eq tree option).2.2, hoption]
  simp

/-- A subcommand has a larger number than its command. -/
theorem lt_of_mem_commands (h : tree.WellFormed) (hid : id ∈ tree.commands parent) : parent < id :=
  h.parent_lt (h.mem_commands.mp hid).2

end WellFormed

end CommandLine.CommandTree
