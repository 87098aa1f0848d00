import CommandLine.Config
import CommandLine.Reading.Inline
import CommandLine.Scope

/-!
# Reading the tokens of a command line

Tokens are read one after another, each under the command that is current when it is read. Up to
the first `--`, a token is in this order of precedence `--` itself, a subcommand, an option in
scope, or an option in scope with a value after a delimiter; all of these are recognized. Any
other token goes to the option that is still taking values, then to the first positional argument
with room, and is unmatched if there is neither. After `--` only the last two remain.

The outcome is the list of readings, one a token, and everything a report says about a command
line is drawn from that list.
-/

namespace CommandLine

/-- What a command line is read against. -/
structure Setting (β : Type) where
  tree : CommandTree β
  config : Config
  /-- The options in scope at each command. -/
  scope : SymbolId → Scope

/-- The setting of a tree with its own scopes. -/
def Setting.of {β : Type} (tree : CommandTree β) (config : Config) : Setting β where
  tree := tree
  config := config
  scope := tree.scope

/-- What a token looks like at a command, before the tokens around it are considered. -/
inductive Sighting where
  | doubleDash
  | command (id : SymbolId)
  | option (id : SymbolId) (inline : Option String)
  | plain
  | torn
  deriving DecidableEq, Repr

/-- What a token was read as. An option comes with the values in its own token. -/
inductive Meaning where
  | doubleDash
  | command (id : SymbolId)
  | option (id : SymbolId) (inline : List String)
  | optionValue (option : SymbolId)
  | positional (argument : SymbolId)
  | unmatched
  deriving DecidableEq, Repr

/-- One token as it was read, under the command that was current then. -/
structure Reading where
  text : String
  position : Nat
  command : SymbolId
  meaning : Meaning
  deriving DecidableEq, Repr

/-- An option that may still take values from the tokens that follow it. -/
structure Taking where
  option : SymbolId
  room : Nat
  /-- Whether only truth values are taken, because the option is a flag. -/
  boolOnly : Bool
  deriving DecidableEq, Repr

/-- Where the reading of a command line stands. -/
structure Cursor where
  command : SymbolId
  /-- The positional arguments of the command that may have room, with the room they have. -/
  slots : List (SymbolId × Nat)
  taking : Option Taking := none
  /-- Whether `--` was read. -/
  literal : Bool := false
  readings : List Reading := []
  deriving DecidableEq

/-- Whether an option has room for a token and accepts it. -/
def Taking.accepts (taking : Taking) (token : String) : Bool :=
  taking.room != 0 && (!taking.boolOnly || (readBool token).isSome)

namespace Setting

variable {β : Type}

/-- What a token looks like at a command. -/
def sight (setting : Setting β) (command : SymbolId) (token : String) : Sighting :=
  if token = "--" then .doubleDash
  else
    match setting.tree.subcommand? command token with
    | some subcommand => .command subcommand
    | none =>
        match (setting.scope command).resolve token with
        | some option => .option option none
        | none =>
            match Inline.split setting.config.inlineDelimiters token with
            | .whole => .plain
            | .torn => .torn
            | .parts text value =>
                match (setting.scope command).resolve text with
                | some option => .option option (some value)
                | none => .plain

/-- The greatest number of values that one occurrence of an option takes. -/
def capacity (setting : Setting β) (option : SymbolId) : Nat :=
  match setting.tree.option? option, setting.tree.slot? option with
  | some node, some argument =>
      if node.multi ∨ argument.arity.most = 0 then argument.arity.most else 1
  | _, _ => 0

/-- How an option takes values from the tokens after it. -/
def taking (setting : Setting β) (option : SymbolId) : Taking where
  option := option
  room := setting.capacity option
  boolOnly := (setting.tree.slot? option).any fun argument =>
    argument.type.isBool && argument.arity.least == 0

/-- The values in an option's own token: several between commas, if it may take several. -/
def inlineValues (setting : Setting β) (option : SymbolId) (value : String) : List String :=
  if 1 < setting.capacity option then (value.toList.splitOn ',').map String.ofList else [value]

/-- The positional arguments of a command with the greatest number of values of each. -/
def slots (setting : Setting β) (command : SymbolId) : List (SymbolId × Nat) :=
  (setting.tree.arguments command).map fun argument =>
    (argument, ((setting.tree.argument? argument).map (·.arity.most)).getD 0)

end Setting

namespace Cursor

variable {β : Type}

/-- The reading of a command line before its first token. -/
def start (setting : Setting β) (command : SymbolId) : Cursor where
  command := command
  slots := setting.slots command

/-- One more token read, with the given meaning. -/
def record (cursor : Cursor) (text : String) (meaning : Meaning) : Cursor :=
  { cursor with
    readings :=
      cursor.readings ++ [⟨text, cursor.readings.length, cursor.command, meaning⟩] }

/-- The next token goes to the first positional argument with room, or is unmatched. -/
def place (cursor : Cursor) (token : String) : Cursor :=
  match cursor.slots.dropWhile (·.2 == 0) with
  | [] => { cursor.record token .unmatched with slots := [], taking := none }
  | (argument, room) :: slots =>
      { cursor.record token (.positional argument) with
        slots := (argument, room - 1) :: slots, taking := none }

/-- Reads a token that is not recognized. -/
def stepPlain (cursor : Cursor) (token : String) : Cursor :=
  match cursor.taking.filter (·.accepts token) with
  | some taking =>
      { cursor.record token (.optionValue taking.option) with
        taking := some { taking with room := taking.room - 1 } }
  | none => cursor.place token

/-- Reads one more token. -/
def step (setting : Setting β) (cursor : Cursor) (token : String) : Cursor :=
  if cursor.literal then cursor.place token
  else
    match setting.sight cursor.command token with
    | .doubleDash => { cursor.record token .doubleDash with taking := none, literal := true }
    | .command id =>
        { cursor.record token (.command id) with
          command := id, slots := setting.slots id, taking := none }
    | .option id none =>
        { cursor.record token (.option id []) with taking := some (setting.taking id) }
    | .option id (some value) =>
        { cursor.record token (.option id (setting.inlineValues id value)) with taking := none }
    | .plain | .torn => cursor.stepPlain token

/-- Whether the next token would be torn by a delimiter. -/
def tears (setting : Setting β) (cursor : Cursor) (token : String) : Bool :=
  !cursor.literal && decide (setting.sight cursor.command token = .torn)

/-- Reads tokens until all are read, or until one is torn; then it tells what was read before. -/
def read (setting : Setting β) (cursor : Cursor) : List String → Except Cursor Cursor
  | [] => .ok cursor
  | token :: tokens =>
      if cursor.tears setting token then .error cursor
      else (cursor.step setting token).read setting tokens

end Cursor

/-- With delimiters of one byte no token looks torn. -/
theorem Setting.sight_ne_torn {β : Type} {setting : Setting β}
    (h : ∀ d ∈ setting.config.inlineDelimiters, d.utf8Size = 1) (command : SymbolId)
    (token : String) : setting.sight command token ≠ .torn := by
  have hwhole := Inline.split_ne_torn h token
  unfold sight
  repeat' split
  all_goals simp_all

/-- With delimiters of one byte reading never stops early. -/
theorem Cursor.read_eq_ok {β : Type} {setting : Setting β}
    (h : ∀ d ∈ setting.config.inlineDelimiters, d.utf8Size = 1) (cursor : Cursor)
    (tokens : List String) :
    cursor.read setting tokens = .ok (tokens.foldl (Cursor.step setting) cursor) := by
  induction tokens generalizing cursor with
  | nil => rfl
  | cons token tokens ih =>
    have htears : cursor.tears setting token = false := by
      simp [tears, Setting.sight_ne_torn h]
    simp [read, htears, ih]

/-- One token adds one reading. -/
theorem Cursor.length_readings_step {β : Type} (setting : Setting β) (cursor : Cursor)
    (token : String) :
    (cursor.step setting token).readings.length = cursor.readings.length + 1 := by
  unfold step stepPlain place record
  repeat' split
  all_goals simp

end CommandLine
