import CommandLine.Proofs.Reading.Agreement

/-!
# What a tree only shows

Descriptions and hidden flags are there for help and suggestions, and a default is only evaluated
where its value is asked for. A bare tree has none of them, apart from the fact that an argument has
a default. Whatever reading and checking a command line asks a tree, a bare tree answers the same,
so two trees with the same bare tree read every command line alike.
-/

namespace CommandLine

variable {β : Type}

/-- The argument with a default that always supplies the same value, if it has one at all. -/
def ArgumentNode.bare (node : ArgumentNode) : ArgumentNode :=
  { node with default := node.default.map fun _ _ => .bool false }

/-- The role with a bare argument. -/
def Role.bare : Role β → Role β
  | .command node => .command node
  | .option node => .option node
  | .argument node => .argument node.bare

/-- The symbol without its description, shown, and with a bare role. -/
def Symbol.bare (symbol : Symbol β) : Symbol β :=
  { symbol with description := none, hidden := false, role := symbol.role.bare }

/-- The configuration with what matters to reading alone. -/
def Config.bare (config : Config) : Config :=
  { suggestions := false, inlineDelimiters := config.inlineDelimiters }

/-- The tree with all its symbols bare. -/
def CommandTree.bare (tree : CommandTree β) : CommandTree β :=
  ⟨(tree.symbols.toList.map Symbol.bare).toArray⟩

/-! ## Symbols -/

namespace Symbol

variable (symbol : Symbol β)

/-- A bare symbol is the same command. -/
@[simp] theorem command?_bare : symbol.bare.command? = symbol.command? := by
  cases hrole : symbol.role <;> simp [bare, command?, Role.bare, hrole]

/-- A bare symbol is the same option. -/
@[simp] theorem option?_bare : symbol.bare.option? = symbol.option? := by
  cases hrole : symbol.role <;> simp [bare, option?, Role.bare, hrole]

/-- A bare argument is the argument with a bare node. -/
@[simp] theorem argument?_bare :
    symbol.bare.argument? = symbol.argument?.map ArgumentNode.bare := by
  cases hrole : symbol.role <;> simp [bare, argument?, Role.bare, hrole]

/-- A bare symbol has the same action. -/
@[simp] theorem action?_bare : symbol.bare.action? = symbol.action? := by
  cases hrole : symbol.role <;> simp [bare, action?, Role.bare, hrole]

end Symbol

/-! ## Trees -/

namespace CommandTree

variable (tree : CommandTree β) (id : SymbolId)

/-- The symbols of a bare tree are the bare symbols of the tree. -/
theorem symbol?_bare : tree.bare.symbol? id = (tree.symbol? id).map Symbol.bare := by
  rw [symbol?, symbol?, bare, List.getElem?_toArray, List.getElem?_map, Array.getElem?_toList]

/-- A bare tree has the same commands. -/
@[simp] theorem command?_bare : tree.bare.command? id = tree.command? id := by
  rw [command?, command?, symbol?_bare]
  cases tree.symbol? id <;> simp

/-- A bare tree has the same options. -/
@[simp] theorem option?_bare : tree.bare.option? id = tree.option? id := by
  rw [option?, option?, symbol?_bare]
  cases tree.symbol? id <;> simp

/-- A bare tree has the bare arguments of the tree. -/
@[simp] theorem argument?_bare :
    tree.bare.argument? id = (tree.argument? id).map ArgumentNode.bare := by
  rw [argument?, argument?, symbol?_bare]
  cases tree.symbol? id <;> simp

/-- In a bare tree an option has the same argument, bare. -/
@[simp] theorem slot?_bare : tree.bare.slot? id = (tree.slot? id).map ArgumentNode.bare := by
  rw [slot?, slot?, option?_bare]
  cases tree.option? id <;> simp

/-- A bare tree has the bare roles of the tree. -/
@[simp] theorem role?_bare : tree.bare.role? id = (tree.role? id).map Role.bare := by
  rw [role?, role?, symbol?_bare]
  cases tree.symbol? id <;> rfl

/-- A bare tree has the same actions. -/
@[simp] theorem action?_bare : tree.bare.action? id = tree.action? id := by
  rw [action?, action?, symbol?_bare]
  cases tree.symbol? id <;> simp

/-- A bare tree has the same names. -/
@[simp] theorem name_bare : tree.bare.name id = tree.name id := by
  rw [name, name, symbol?_bare]
  cases tree.symbol? id <;> rfl

/-- A bare tree has the same names in messages. -/
@[simp] theorem displayName_bare : tree.bare.displayName id = tree.displayName id := by
  rw [displayName, displayName, symbol?_bare]
  cases tree.symbol? id <;> rfl

/-- A bare tree has the same aliases. -/
@[simp] theorem aliases_bare : tree.bare.aliases id = tree.aliases id := by
  rw [aliases, aliases, symbol?_bare]
  cases tree.symbol? id <;> rfl

/-- A bare tree has the same parents. -/
@[simp] theorem parent?_bare : tree.bare.parent? id = tree.parent? id := by
  rw [parent?, parent?, symbol?_bare]
  cases tree.symbol? id <;> rfl

/-- In a bare tree the same symbols answer to a text. -/
@[simp] theorem hasAlias_bare (text : String) :
    tree.bare.hasAlias id text = tree.hasAlias id text := by
  rw [hasAlias, hasAlias, symbol?_bare]
  cases tree.symbol? id <;> rfl

/-- In a bare tree the way up is the same. -/
@[simp] theorem ancestors_bare : tree.bare.ancestors id = tree.ancestors id := by
  induction id using Nat.strongRecOn with
  | ind id ih =>
    rw [ancestors, ancestors, parent?_bare]
    cases tree.parent? id with
    | none => rfl
    | some parent =>
      dsimp only
      split
      · rw [ih parent ‹_›]
      · rfl

/-- In a bare tree the same options are inherited. -/
@[simp] theorem isInherited_bare : tree.bare.isInherited id = tree.isInherited id := by
  rw [isInherited, isInherited, option?_bare]

/-- In a bare tree the same options are required. -/
@[simp] theorem isRequired_bare : tree.bare.isRequired id = tree.isRequired id := by
  rw [isRequired, isRequired, option?_bare]

/-- In a bare tree the same options are in scope, by the same aliases. -/
@[simp] theorem scope_bare : tree.bare.scope id = tree.scope id := by
  have hinherited : tree.bare.isInherited = tree.isInherited := funext tree.isInherited_bare
  have haliases : tree.bare.aliases = tree.aliases := funext tree.aliases_bare
  have hdeclared : tree.bare.declaredOptions id = tree.declaredOptions id := by
    simp only [declaredOptions, options, ancestors_bare, command?_bare, hinherited]
  rw [scope, scope, hdeclared, haliases]

/-- In a bare tree a text names the same subcommand. -/
@[simp] theorem subcommand?_bare (text : String) :
    tree.bare.subcommand? id text = tree.subcommand? id text := by
  simp only [subcommand?, commands, command?_bare, hasAlias_bare]

end CommandTree

/-! ## Reading -/

/-- Tokens are read against a bare tree as against the tree. -/
theorem Setting.agreeAt_bare (tree : CommandTree β) (config : Config) (command : SymbolId) :
    (Setting.of tree config).AgreeAt (Setting.of tree.bare config.bare) command := by
  have hcapacity : ∀ option, (Setting.of tree.bare config.bare).capacity option =
      (Setting.of tree config).capacity option := by
    intro option
    simp only [capacity, Setting.of, CommandTree.option?_bare, CommandTree.slot?_bare]
    cases tree.option? option <;> cases tree.slot? option <;> rfl
  refine ⟨Setting.sight_congr rfl (tree.subcommand?_bare command) ?_, ?_, ?_, ?_⟩
  · intro text
    exact congrArg (Scope.resolve · text) (tree.scope_bare command)
  · intro text option _
    simp only [taking, hcapacity]
    simp only [Setting.of, CommandTree.slot?_bare]
    cases tree.slot? option <;> rfl
  · intro text option _ value
    simp only [inlineValues, hcapacity]
  · simp only [slots, Setting.of, CommandTree.arguments, CommandTree.command?_bare]
    refine List.map_congr_left fun argument _ => ?_
    rw [CommandTree.argument?_bare]
    cases tree.argument? argument <;> rfl

end CommandLine
