import CommandLine.Proofs.CommandTree.WellFormed

/-!
# Editing in place

An edit can also be carried out by changing a tree step by step. Checks, new symbols and changes of
fields then stand in the order in which they are made, and what was done before a refusal stays
done. An option is entered with its own number in place of its argument's until the argument is
there, a command that gets a new name has none for a moment, and a command is asked for once more
when its new child is already among the symbols.

All checks that can fail come before the first change. So an edit in place that is refused leaves
the tree as it was, and one that is carried out makes the tree that the edit gives.
-/

namespace CommandLine

/-- Steps that change a tree in place; those before a refusal are not taken back. -/
abbrev InPlace (β : Type) := ExceptT TreeError (StateM (CommandTree β))

namespace InPlace

variable {β : Type}

/-- The outcome of steps that start from a tree, and the tree they leave. -/
def outcome {A : Type} (steps : InPlace β A) (tree : CommandTree β) :
    Except TreeError A × CommandTree β :=
  StateT.run (ExceptT.run steps) tree

/-! ## Steps -/

/-- Goes on only if a check passes. -/
def check {A : Type} (result : Except TreeError A) : InPlace β A :=
  match result with
  | .ok value => pure value
  | .error error => throw error

/-- The symbol with a number, which has to be there. -/
def demandSymbol (id : SymbolId) : InPlace β (Symbol β) := do
  match (← get).symbol? id with
  | some symbol => return symbol
  | none => throw (.unknownSymbol id)

/-- The command with a number, which has to be there and to be a command. -/
def demandCommand (id : SymbolId) : InPlace β (CommandNode β) := do
  match (← demandSymbol id).command? with
  | some node => return node
  | none => throw (.wrongKind id .command)

/-- Puts a symbol at the end, and gives its number. -/
def append (symbol : Symbol β) : InPlace β SymbolId := do
  let tree ← get
  set (tree.push symbol)
  return tree.size

/-- Changes the symbol with a number. -/
def change (id : SymbolId) (alter : Symbol β → Symbol β) : InPlace β Unit :=
  modify (·.modify id alter)

/-- Changes what only a command has, after looking for the command. -/
def changeCommand (id : SymbolId) (alter : CommandNode β → CommandNode β) : InPlace β Unit := do
  let _ ← demandCommand id
  change id (Symbol.onCommand alter)

/-- Puts a symbol at the end, and enters it into a list of a command. -/
def attach (parent : SymbolId) (symbol : Symbol β)
    (alter : SymbolId → CommandNode β → CommandNode β) : InPlace β SymbolId := do
  let id ← append symbol
  changeCommand parent (alter id)
  return id

/-- An option with another argument; other symbols stay as they are. -/
def assign (argument : SymbolId) (symbol : Symbol β) : Symbol β :=
  match symbol.role with
  | .option node => { symbol with role := .option { node with argument } }
  | _ => symbol

/--
Puts an option and its argument at the end, links the one to the other, and enters the option into
the list of a command.
-/
def attachOption (parent : SymbolId) (option : Symbol β) (slot : SymbolId → Symbol β) :
    InPlace β SymbolId := do
  let id ← append option
  let argument ← append (slot id)
  let _ ← demandSymbol id
  change id (assign argument)
  changeCommand parent (CommandNode.addOption id)
  return id

/-- Adds texts to a set of aliases, each after a check of its own. -/
def collect (aliases : AliasSet) : List String → InPlace β AliasSet
  | [] => return aliases
  | text :: texts => do
      check (Alias.check text)
      collect (aliases.insert text) texts

/-! ## Edits -/

/-- Adds a subcommand. -/
def addCommand (parent : SymbolId) (decl : CommandDecl β) : InPlace β SymbolId := do
  let _ ← demandCommand parent
  check (Alias.check decl.name)
  let aliases ← collect (AliasSet.empty.insert decl.name) decl.aliases
  attach parent { decl.symbol (some parent) with aliases } CommandNode.addCommand

/-- Adds an option, which is entered with its own number in place of its argument's. -/
def addOption (parent : SymbolId) (decl : OptionDecl β) (inherited : Bool) :
    InPlace β SymbolId := do
  let _ ← demandCommand parent
  if decl.aliases.isEmpty then throw .noAliases
  let aliases ← collect .empty decl.aliases
  let own := (← get).size
  attachOption parent { decl.symbol inherited own parent with aliases } (decl.slot.symbol true)

/-- Adds a positional argument. -/
def addArgument (parent : SymbolId) (decl : ArgumentDecl) : InPlace β SymbolId := do
  let _ ← demandCommand parent
  attach parent (decl.symbol false parent) CommandNode.addArgument

/-- Attaches an action. -/
def setAction (id : SymbolId) (action : Action β) : InPlace β Unit := do
  match (← demandSymbol id).withAction? action with
  | some symbol => change id fun _ => symbol
  | none => throw (.wrongKind id .commandOrOption)

/-- Adds an alias. -/
def addAlias (id : SymbolId) (text : String) : InPlace β Unit := do
  check (Alias.check text)
  match (← demandSymbol id).argument? with
  | some _ => throw (.wrongKind id .commandOrOption)
  | none => change id fun symbol => { symbol with aliases := symbol.aliases.insert text }

/-- Removes an alias, and says whether it was there. -/
def removeAlias (id : SymbolId) (text : String) : InPlace β Bool := do
  let symbol ← demandSymbol id
  change id fun symbol => { symbol with aliases := symbol.aliases.erase text }
  return decide (text ∈ symbol.aliases)

/-- Takes the name of a command away with its alias by that name, and adds one by a new name. -/
def exchangeAlias (id : SymbolId) (old : Option String) (name : String) : InPlace β Unit := do
  match old with
  | some old =>
      change id fun symbol => { symbol with explicitName := none }
      change id fun symbol => { symbol with aliases := symbol.aliases.erase old }
  | none => pure ()
  change id fun symbol => { symbol with aliases := symbol.aliases.insert name }

/-- Names a symbol. -/
def setName (id : SymbolId) (name : String) : InPlace β Unit := do
  let symbol ← demandSymbol id
  if symbol.command?.isSome then
    check (Alias.check name)
    exchangeAlias id symbol.explicitName name
  change id fun symbol => { symbol with explicitName := some name }

/-- Describes a symbol. -/
def setDescription (id : SymbolId) (text : String) : InPlace β Unit := do
  let _ ← demandSymbol id
  change id fun symbol => { symbol with description := some text }

/-- Hides a symbol, or shows it again. -/
def setHidden (id : SymbolId) (hidden : Bool) : InPlace β Unit := do
  let _ ← demandSymbol id
  change id fun symbol => { symbol with hidden }

/-- Carries out an edit in place. -/
def perform : Edit β → InPlace β EditReply
  | .addCommand parent decl => .added <$> addCommand parent decl
  | .addOption parent decl inherited => .added <$> addOption parent decl inherited
  | .addArgument parent decl => .added <$> addArgument parent decl
  | .setAction id action => (fun _ => .done) <$> setAction id action
  | .addAlias id text => (fun _ => .done) <$> addAlias id text
  | .removeAlias id text => .removed <$> removeAlias id text
  | .setName id name => (fun _ => .done) <$> setName id name
  | .setDescription id text => (fun _ => .done) <$> setDescription id text
  | .setHidden id hidden => (fun _ => .done) <$> setHidden id hidden

end InPlace

namespace CommandTree

variable {tree next : CommandTree β} {id : SymbolId}

/-- Trees with the same symbols under the same numbers are the same. -/
theorem eq_of_symbol?_eq (h : ∀ id, tree.symbol? id = next.symbol? id) : tree = next := by
  obtain ⟨symbols⟩ := tree
  obtain ⟨others⟩ := next
  rw [mk.injEq]
  exact Array.ext_getElem? h

/-- Two changes of one symbol are one change. -/
theorem modify_modify (first second : Symbol β → Symbol β) :
    (tree.modify id first).modify id second =
      tree.modify id fun symbol => second (first symbol) := by
  refine eq_of_symbol?_eq fun other => ?_
  simp only [symbol?_modify]
  split
  · rw [Option.map_map]
    rfl
  · rfl

/-- A change may be described by what it does to the one symbol that it reaches. -/
theorem modify_congr {symbol : Symbol β} {first second : Symbol β → Symbol β}
    (hsymbol : tree.symbol? id = some symbol) (h : first symbol = second symbol) :
    tree.modify id first = tree.modify id second := by
  refine eq_of_symbol?_eq fun other => ?_
  simp only [symbol?_modify]
  split
  · subst other
    rw [hsymbol, Option.map_some, Option.map_some, h]
  · rfl

end CommandTree

namespace InPlace

/-! ## What steps leave behind -/

variable {A B : Type} {tree next : CommandTree β}

/-- The outcome of an edit that is carried out as a whole or not at all. -/
def whole (tree : CommandTree β) : Except TreeError (A × CommandTree β) →
    Except TreeError A × CommandTree β
  | .ok (value, next) => (.ok value, next)
  | .error error => (.error error, tree)

/-- A step that only gives a value leaves the tree alone. -/
@[simp] theorem outcome_pure (value : A) :
    outcome (pure value : InPlace β A) tree = (.ok value, tree) := rfl

/-- A refusal leaves the tree as it finds it. -/
@[simp] theorem outcome_throw (error : TreeError) :
    outcome (throw error : InPlace β A) tree = (.error error, tree) := rfl

/-- The tree is the one that the steps before left. -/
@[simp] theorem outcome_get : outcome (get : InPlace β (CommandTree β)) tree = (.ok tree, tree) :=
  rfl

/-- A new symbol has the next number. -/
@[simp] theorem outcome_append (symbol : Symbol β) :
    outcome (append symbol) tree = (.ok tree.size, tree.push symbol) := rfl

/-- A change of one symbol never fails. -/
@[simp] theorem outcome_change (id : SymbolId) (alter : Symbol β → Symbol β) :
    outcome (change id alter) tree = (.ok (), tree.modify id alter) := rfl

/-- Steps one after another: the second starts from what the first left, unless it refused. -/
theorem outcome_bind (first : InPlace β A) (second : A → InPlace β B) :
    outcome (first >>= second) tree =
      match outcome first tree with
      | (.ok value, next) => outcome (second value) next
      | (.error error, next) => (.error error, next) := by
  change (ExceptT.bindCont second (outcome first tree).1).run (outcome first tree).2 = _
  rcases outcome first tree with ⟨_ | _, _⟩ <;> rfl

/-- What follows steps that were carried out starts from the tree they left. -/
theorem outcome_bind_ok {first : InPlace β A} {value : A}
    (h : outcome first tree = (.ok value, next)) (second : A → InPlace β B) :
    outcome (first >>= second) tree = outcome (second value) next := by
  rw [outcome_bind, h]

/-- A check leaves the tree alone. -/
@[simp] theorem outcome_check (result : Except TreeError A) :
    outcome (check result : InPlace β A) tree = (result, tree) := by
  cases result <;> rfl

/-- Looking for a symbol leaves the tree alone. -/
@[simp] theorem outcome_demandSymbol (id : SymbolId) :
    outcome (demandSymbol id) tree = (tree.expectSymbol id, tree) := by
  rw [demandSymbol, outcome_bind_ok outcome_get, CommandTree.expectSymbol]
  cases tree.symbol? id <;> rfl

/-- Looking for a command leaves the tree alone. -/
@[simp] theorem outcome_demandCommand (id : SymbolId) :
    outcome (demandCommand id) tree = (tree.expectCommand id, tree) := by
  rw [demandCommand, outcome_bind, outcome_demandSymbol, CommandTree.expectCommand]
  cases tree.expectSymbol id with
  | error error => rfl
  | ok symbol => cases hcommand : symbol.command? <;> simp [bind, Except.bind, hcommand]

/-- Collecting aliases leaves the tree alone, and gives all of them if all pass. -/
@[simp] theorem outcome_collect (aliases : AliasSet) (texts : List String) :
    outcome (collect aliases texts : InPlace β AliasSet) tree =
      ((Alias.checkAll texts).map fun _ => texts.foldl AliasSet.insert aliases, tree) := by
  induction texts generalizing aliases with
  | nil => rfl
  | cons text texts ih =>
    rw [collect, Alias.checkAll, outcome_bind, outcome_check]
    cases Alias.check text with
    | error error => rfl
    | ok value => exact ih (aliases.insert text)

/-! ## Edits as a whole -/

/-- If steps that leave the tree alone are followed by an edit as a whole, both are one. -/
theorem outcome_bind_eq_whole {first : InPlace β A} {second : A → InPlace β B}
    {result : Except TreeError A} {rest : A → Except TreeError (B × CommandTree β)}
    (hfirst : outcome first tree = (result, tree))
    (hsecond : ∀ value, result = .ok value →
      outcome (second value) tree = whole tree (rest value)) :
    outcome (first >>= second) tree = whole tree (result >>= rest) := by
  rw [outcome_bind, hfirst]
  cases result with
  | error error => rfl
  | ok value => exact hsecond value rfl

/-- A result that is turned into another one at the end of an edit. -/
theorem outcome_map_eq_whole {steps : InPlace β A} {result : Except TreeError (A × CommandTree β)}
    (h : outcome steps tree = whole tree result) (f : A → B) :
    outcome (f <$> steps) tree = whole tree (result.map fun (value, next) => (f value, next)) := by
  rw [map_eq_pure_bind, outcome_bind, h]
  rcases result with _ | ⟨_, _⟩ <;> rfl

/-- The same for an edit whose result is known beforehand. -/
theorem outcome_map_eq_whole_map {steps : InPlace β A} {value : A}
    {result : Except TreeError (CommandTree β)}
    (h : outcome steps tree = whole tree (result.map (value, ·))) (f : A → B) :
    outcome (f <$> steps) tree = whole tree (result.map (f value, ·)) := by
  rw [outcome_map_eq_whole h]
  cases result <;> rfl

/-- A step at the end of a sequence may be mapped by itself. -/
theorem map_bind {C : Type} (first : Except TreeError A) (second : A → Except TreeError B)
    (f : B → C) : (first >>= second).map f = first >>= fun value => (second value).map f := by
  cases first <;> rfl

/-- A command that is there can be changed. -/
theorem outcome_changeCommand {id : SymbolId} {node : CommandNode β}
    (h : tree.command? id = some node) (alter : CommandNode β → CommandNode β) :
    outcome (changeCommand id alter) tree = (.ok (), tree.modify id (Symbol.onCommand alter)) := by
  have hcommand : tree.expectCommand id = .ok node := CommandTree.expectCommand_eq_ok.mpr h
  rw [changeCommand, outcome_bind, outcome_demandCommand, hcommand]
  rfl

/-- A symbol can be entered into a list of a command that is there before it. -/
theorem outcome_attach {parent : SymbolId} {node : CommandNode β}
    (h : tree.command? parent = some node) (symbol : Symbol β)
    (alter : SymbolId → CommandNode β → CommandNode β) :
    outcome (attach parent symbol alter) tree =
      (.ok tree.size, (tree.push symbol).modify parent (Symbol.onCommand (alter tree.size))) := by
  rw [attach, outcome_bind_ok (outcome_append symbol),
    outcome_bind_ok (outcome_changeCommand (CommandTree.command?_push h) _)]
  rfl

/-- An option can get its argument when this is there already. -/
theorem modify_push_push (first second : Symbol β) (alter : Symbol β → Symbol β) :
    ((tree.push first).push second).modify tree.size alter =
      (tree.push (alter first)).push second := by
  refine CommandTree.eq_of_symbol?_eq fun id => ?_
  simp only [CommandTree.symbol?_modify, CommandTree.symbol?_push, CommandTree.size_push]
  by_cases hid : id = tree.size
  · subst id
    simp
  · simp [hid]

/-- An option and its argument can be entered below a command that is there before them. -/
theorem outcome_attachOption {parent : SymbolId} {node : CommandNode β}
    (h : tree.command? parent = some node) (option : Symbol β) (slot : SymbolId → Symbol β) :
    outcome (attachOption parent option slot) tree =
      (.ok tree.size, ((tree.push (assign (tree.size + 1) option)).push (slot tree.size)).modify
        parent (Symbol.onCommand (CommandNode.addOption tree.size))) := by
  have hoption : outcome (demandSymbol tree.size) ((tree.push option).push (slot tree.size)) =
      (.ok option, (tree.push option).push (slot tree.size)) := by
    rw [outcome_demandSymbol, CommandTree.expectSymbol_eq_ok.mpr]
    simp [CommandTree.symbol?_push]
  have hcommand : ((tree.push (assign (tree.size + 1) option)).push (slot tree.size)).command?
      parent = some node := CommandTree.command?_push (CommandTree.command?_push h)
  rw [attachOption, outcome_bind_ok (outcome_append option),
    outcome_bind_ok (outcome_append (slot tree.size)), outcome_bind_ok hoption,
    outcome_bind_ok (outcome_change _ _), modify_push_push, CommandTree.size_push,
    outcome_bind_ok (outcome_changeCommand hcommand _)]
  rfl

/-- Adding a subcommand in place. -/
theorem outcome_addCommand (parent : SymbolId) (decl : CommandDecl β) :
    outcome (addCommand parent decl) tree =
      whole tree ((tree.addCommand parent decl).map (tree.size, ·)) := by
  rw [CommandTree.addCommand, map_bind, Alias.checkAll]
  refine outcome_bind_eq_whole (outcome_demandCommand parent) fun node hnode => ?_
  rw [map_bind, bind_assoc]
  refine outcome_bind_eq_whole (outcome_check _) fun _ _ => ?_
  rw [outcome_bind, outcome_collect]
  cases Alias.checkAll decl.aliases with
  | error error => rfl
  | ok value => exact outcome_attach (CommandTree.expectCommand_eq_ok.mp hnode) _ _

/-- Adding an option in place. -/
theorem outcome_addOption (parent : SymbolId) (decl : OptionDecl β) (inherited : Bool) :
    outcome (addOption parent decl inherited) tree =
      whole tree ((tree.addOption parent decl inherited).map (tree.size, ·)) := by
  rw [CommandTree.addOption, map_bind]
  refine outcome_bind_eq_whole (outcome_demandCommand parent) fun node hnode => ?_
  cases hempty : decl.aliases.isEmpty with
  | true => rfl
  | false =>
    have hcommand := CommandTree.expectCommand_eq_ok.mp hnode
    change outcome (collect .empty decl.aliases >>= _) tree =
      whole tree ((Alias.checkAll decl.aliases >>= fun _ => _).map _)
    rw [outcome_bind, outcome_collect]
    cases Alias.checkAll decl.aliases with
    | error error => rfl
    | ok value =>
      dsimp only [Except.map]
      rw [outcome_bind_ok outcome_get, outcome_attachOption hcommand]
      rfl

/-- Adding a positional argument in place. -/
theorem outcome_addArgument (parent : SymbolId) (decl : ArgumentDecl) :
    outcome (addArgument parent decl) tree =
      whole tree ((tree.addArgument parent decl).map (tree.size, ·)) := by
  rw [CommandTree.addArgument, map_bind]
  refine outcome_bind_eq_whole (outcome_demandCommand parent) fun node hnode => ?_
  exact outcome_attach (CommandTree.expectCommand_eq_ok.mp hnode) _ _

/-- Attaching an action in place. -/
theorem outcome_setAction (id : SymbolId) (action : Action β) :
    outcome (setAction id action) tree = whole tree ((tree.setAction id action).map ((), ·)) := by
  rw [CommandTree.setAction, map_bind]
  refine outcome_bind_eq_whole (outcome_demandSymbol id) fun symbol _ => ?_
  cases symbol.withAction? action <;> rfl

/-- Adding an alias in place. -/
theorem outcome_addAlias (id : SymbolId) (text : String) :
    outcome (addAlias id text) tree = whole tree ((tree.addAlias id text).map ((), ·)) := by
  rw [CommandTree.addAlias, map_bind]
  refine outcome_bind_eq_whole (outcome_check _) fun _ _ => ?_
  rw [map_bind]
  refine outcome_bind_eq_whole (outcome_demandSymbol id) fun symbol _ => ?_
  cases symbol.argument? <;> rfl

/-- Removing an alias in place. -/
theorem outcome_removeAlias (id : SymbolId) (text : String) :
    outcome (removeAlias id text) tree = whole tree (tree.removeAlias id text) := by
  rw [CommandTree.removeAlias]
  exact outcome_bind_eq_whole (outcome_demandSymbol id) fun symbol _ => rfl

/-- Exchanging the alias of a command takes its old name, if there is one. -/
theorem outcome_exchangeAlias (id : SymbolId) (old : Option String) (name : String) :
    outcome (exchangeAlias id old name) tree =
      (.ok (), tree.modify id fun symbol =>
        { symbol with
          explicitName := old.elim symbol.explicitName fun _ => none
          aliases := (old.elim symbol.aliases symbol.aliases.erase).insert name }) := by
  cases old with
  | none => rfl
  | some old =>
    change (Except.ok (), ((tree.modify id _).modify id _).modify id _) = _
    rw [CommandTree.modify_modify, CommandTree.modify_modify]
    rfl

/-- Naming a symbol in place. -/
theorem outcome_setName (id : SymbolId) (name : String) :
    outcome (setName id name) tree = whole tree ((tree.setName id name).map ((), ·)) := by
  rw [CommandTree.setName, map_bind]
  refine outcome_bind_eq_whole (outcome_demandSymbol id) fun symbol hsymbol => ?_
  have hfound := CommandTree.expectSymbol_eq_ok.mp hsymbol
  cases hcommand : symbol.command? with
  | none =>
    have hrename : symbol.rename name = { symbol with explicitName := some name } := by
      cases hrole : symbol.role <;> simp [Symbol.rename, Symbol.command?, hrole] at hcommand ⊢
    exact congrArg (Prod.mk _) (CommandTree.modify_congr hfound hrename.symm)
  | some node =>
    have hrename : symbol.rename name = { symbol with
        explicitName := some name
        aliases :=
          (symbol.explicitName.elim symbol.aliases symbol.aliases.erase).insert name } := by
      cases hrole : symbol.role <;> simp [Symbol.rename, Symbol.command?, hrole] at hcommand ⊢
    change outcome (check (Alias.check name) >>= _) tree = whole tree
      (Except.map _ (Alias.check name >>= fun _ => .ok (tree.modify id (Symbol.rename name))))
    rw [map_bind]
    refine outcome_bind_eq_whole (outcome_check _) fun _ _ => ?_
    rw [outcome_bind_ok (outcome_exchangeAlias _ _ _), outcome_change, CommandTree.modify_modify]
    exact congrArg (Prod.mk _) (CommandTree.modify_congr hfound hrename.symm)

/-- Describing a symbol in place. -/
theorem outcome_setDescription (id : SymbolId) (text : String) :
    outcome (setDescription id text) tree =
      whole tree ((tree.setDescription id text).map ((), ·)) := by
  rw [CommandTree.setDescription, map_bind]
  exact outcome_bind_eq_whole (outcome_demandSymbol id) fun symbol _ => rfl

/-- Hiding a symbol in place. -/
theorem outcome_setHidden (id : SymbolId) (hidden : Bool) :
    outcome (setHidden id hidden) tree = whole tree ((tree.setHidden id hidden).map ((), ·)) := by
  rw [CommandTree.setHidden, map_bind]
  exact outcome_bind_eq_whole (outcome_demandSymbol id) fun symbol _ => rfl

/-- An edit in place is carried out as a whole or not at all, and has the outcome of the edit. -/
theorem outcome_perform (tree : CommandTree β) (edit : Edit β) :
    outcome (perform edit) tree = whole tree (tree.edit edit) := by
  cases edit with
  | addCommand parent decl => exact outcome_map_eq_whole_map (outcome_addCommand parent decl) _
  | addOption parent decl inherited =>
    exact outcome_map_eq_whole_map (outcome_addOption parent decl inherited) _
  | addArgument parent decl => exact outcome_map_eq_whole_map (outcome_addArgument parent decl) _
  | setAction id action => exact outcome_map_eq_whole_map (outcome_setAction id action) _
  | addAlias id text => exact outcome_map_eq_whole_map (outcome_addAlias id text) _
  | removeAlias id text => exact outcome_map_eq_whole (outcome_removeAlias id text) _
  | setName id name => exact outcome_map_eq_whole_map (outcome_setName id name) _
  | setDescription id text => exact outcome_map_eq_whole_map (outcome_setDescription id text) _
  | setHidden id hidden => exact outcome_map_eq_whole_map (outcome_setHidden id hidden) _

end InPlace

end CommandLine
