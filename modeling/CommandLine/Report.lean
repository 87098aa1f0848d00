import CommandLine.Reading

/-!
# Parse reports

A report holds what a command line was read against and how its tokens were read. The command
path, the matched options with their occurrences, and the values bound to each argument are views
of the readings: each of them grows with every token and nothing in it is ever taken back.
-/

namespace CommandLine

/-- The kind of a token in a report. -/
inductive TokenKind where
  | command
  | option
  | argument
  | doubleDash
  | unparsed
  deriving DecidableEq, Repr

/-- A token in a report. -/
structure Token where
  text : String
  kind : TokenKind
  position : Nat
  deriving DecidableEq, Repr

/-- One raw value with the position of the token that holds it. -/
structure Bound where
  text : String
  position : Nat
  deriving DecidableEq, Repr

/-- The raw values bound to an argument, in order. -/
structure Binding where
  argument : SymbolId
  values : List Bound
  deriving DecidableEq, Repr

/-- A matched option with all its occurrences. -/
structure OptionMatch where
  option : SymbolId
  /-- The command under which the option was matched first. -/
  command : SymbolId
  /-- The tokens that named the option, one an occurrence. -/
  tokens : List Token
  binding : Binding
  deriving DecidableEq, Repr

/-- A command on the path. -/
structure CommandMatch where
  command : SymbolId
  /-- The token that named the command; the first command of a path has none. -/
  token : Option Token
  /-- The options matched first under the command. -/
  options : List SymbolId
  /-- The positional arguments with at least one value. -/
  arguments : List Binding
  deriving DecidableEq, Repr

/-- How a command line was read. -/
structure Report (β : Type) where
  setting : Setting β
  start : SymbolId
  readings : List Reading

/-- Why a command line could not be read to its end. -/
inductive Fault where
  | unknownStart
  /-- A delimiter of several bytes lies in the token after those that were read. -/
  | tornToken (cursor : Cursor)

namespace Binding

/-- The raw values as texts. -/
def raws (binding : Binding) : List String := binding.values.map (·.text)

end Binding

namespace Reading

/-- The kind of token that a reading makes. -/
def kind (reading : Reading) : TokenKind :=
  match reading.meaning with
  | .doubleDash => .doubleDash
  | .command _ => .command
  | .option _ _ => .option
  | .optionValue _ => .argument
  | .positional _ => .argument
  | .unmatched => .unparsed

/-- The token of a reading. -/
def token (reading : Reading) : Token := ⟨reading.text, reading.kind, reading.position⟩

/-- The command that a reading descended to. -/
def descent? (reading : Reading) : Option SymbolId :=
  match reading.meaning with
  | .command id => some id
  | _ => none

/-- The option that a reading is an occurrence of. -/
def option? (reading : Reading) : Option SymbolId :=
  match reading.meaning with
  | .option id _ => some id
  | _ => none

/-- The positional argument that a reading is a value of. -/
def positional? (reading : Reading) : Option SymbolId :=
  match reading.meaning with
  | .positional argument => some argument
  | _ => none

/-- The values that a reading gives to an option. -/
def optionValues (option : SymbolId) (reading : Reading) : List Bound :=
  match reading.meaning with
  | .option id inline => if id = option then inline.map (⟨·, reading.position⟩) else []
  | .optionValue id => if id = option then [⟨reading.text, reading.position⟩] else []
  | _ => []

/-- The values that a reading gives to a positional argument. -/
def positionalValues (argument : SymbolId) (reading : Reading) : List Bound :=
  match reading.meaning with
  | .positional id => if id = argument then [⟨reading.text, reading.position⟩] else []
  | _ => []

end Reading

namespace Report

variable {β : Type}

/-- The tree that the command line was read against. -/
def tree (report : Report β) : CommandTree β := report.setting.tree

/-- The configuration that the command line was read with. -/
def config (report : Report β) : Config := report.setting.config

/-- The tokens, one for each text of the command line. -/
def tokens (report : Report β) : List Token := report.readings.map Reading.token

/-- The readings that matched nothing. -/
def unmatchedReadings (report : Report β) : List Reading :=
  report.readings.filter (·.meaning = .unmatched)

/-- The tokens that matched nothing. -/
def unmatched (report : Report β) : List Token := report.unmatchedReadings.map Reading.token

/-- The deepest command that was named, or the first one if none was. -/
def terminal (report : Report β) : SymbolId :=
  (report.readings.filterMap Reading.descent?).getLast?.getD report.start

/-- The matched options without repeats, in the order of their first occurrences. -/
def optionIds (report : Report β) : List SymbolId :=
  (report.readings.filterMap Reading.option?).eraseDups

/-- The readings that are occurrences of an option. -/
def occurrences (report : Report β) (option : SymbolId) : List Reading :=
  report.readings.filter (·.option? = some option)

/-- The argument of an option. -/
def slotId (report : Report β) (option : SymbolId) : SymbolId :=
  ((report.tree.option? option).map (·.argument)).getD option

/-- All that is known of a matched option. -/
def optionMatch (report : Report β) (option : SymbolId) : OptionMatch where
  option := option
  command := ((report.occurrences option).head?.map (·.command)).getD report.start
  tokens := (report.occurrences option).map Reading.token
  binding := ⟨report.slotId option, report.readings.flatMap (Reading.optionValues option)⟩

/-- The matched options in the order of their first occurrences. -/
def options (report : Report β) : List OptionMatch := report.optionIds.map report.optionMatch

/-- The positional arguments of a command that were given values, in order. -/
def argumentIds (report : Report β) (command : SymbolId) : List SymbolId :=
  ((report.readings.filter (·.command = command)).filterMap Reading.positional?).eraseDups

/-- The values bound to the positional arguments of a command. -/
def arguments (report : Report β) (command : SymbolId) : List Binding :=
  (report.argumentIds command).map fun argument =>
    ⟨argument, report.readings.flatMap (Reading.positionalValues argument)⟩

/-- All that is known of a command on the path. -/
def commandMatch (report : Report β) (command : SymbolId) (token : Option Token) :
    CommandMatch where
  command := command
  token := token
  options := (report.options.filter (·.command = command)).map (·.option)
  arguments := report.arguments command

/-- The commands from the first one down to the deepest one. -/
def path (report : Report β) : List CommandMatch :=
  report.commandMatch report.start none
    :: report.readings.filterMap fun reading =>
      reading.descent?.map fun command => report.commandMatch command (some reading.token)

/-- The occurrences of an option that was matched. -/
def option? (report : Report β) (option : SymbolId) : Option OptionMatch :=
  report.options.find? (·.option = option)

/-- Every binding of the report: those of positional arguments, then those of options. -/
def bindings (report : Report β) : List Binding :=
  report.path.flatMap (·.arguments) ++ report.options.map (·.binding)

/-- The values bound to an argument, positional or behind an option. -/
def binding? (report : Report β) (argument : SymbolId) : Option Binding :=
  report.bindings.find? (·.argument = argument)

/-- Whether a command, option or argument took part in the command line. -/
def isMatched (report : Report β) (id : SymbolId) : Bool :=
  match report.tree.role? id with
  | some (.command _) => report.path.any (·.command = id)
  | some (.option _) => (report.option? id).isSome
  | some (.argument _) => (report.binding? id).any (!·.values.isEmpty)
  | none => false

end Report

/-- Reads tokens from a symbol of the tree on, usually a command. -/
def Setting.parse {β : Type} (setting : Setting β) (start : SymbolId) (tokens : List String) :
    Except Fault (Report β) :=
  match setting.tree.symbol? start with
  | none => .error .unknownStart
  | some _ =>
      match (Cursor.start setting start).read setting tokens with
      | .ok cursor => .ok ⟨setting, start, cursor.readings⟩
      | .error cursor => .error (.tornToken cursor)

/-- Reads tokens against a tree, from one of its symbols on. -/
def CommandTree.parse {β : Type} (tree : CommandTree β) (config : Config) (start : SymbolId)
    (tokens : List String) : Except Fault (Report β) :=
  (Setting.of tree config).parse start tokens

end CommandLine
