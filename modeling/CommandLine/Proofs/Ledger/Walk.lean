import CommandLine.Proofs.Ledger.Cutting
import CommandLine.Report.Diagnosis

/-!
# Keeping a ledger of a command line

A command line can also be read by a loop that writes down all that a report says while it goes. Its
ledger holds the commands of the path with what is bound to them, the matched options, and for each
matched option the place where it is entered. An option that is given again is entered where it was
entered before, and the values behind an option are taken in a loop of their own.

What the loop writes to has to be there: the place of an option, the last command. So has what it
looks up: symbols by their numbers, parts of tokens by their offsets. Whatever is missing is a
mishap.
-/

namespace CommandLine

/-- What is written down while a command line is read. -/
@[ext]
structure Ledger where
  command : SymbolId
  scope : Scope
  /-- How many positional arguments of the command are full. -/
  full : ℕ := 0
  /-- Whether `--` was read. -/
  literal : Bool := false
  commands : List CommandMatch
  options : List OptionMatch := []
  /-- The places of matched options among `options`. -/
  places : List (SymbolId × ℕ) := []
  tokens : List Token := []
  unmatched : List Token := []
  errors : List ParseError := []

/-- The bindings with one more value for an argument, in its binding if it has one. -/
def Binding.enter (argument : SymbolId) (value : Bound) : List Binding → List Binding
  | [] => [⟨argument, [value]⟩]
  | binding :: rest =>
      if binding.argument = argument then
        { binding with values := binding.values ++ [value] } :: rest
      else binding :: Binding.enter argument value rest

/-- The matched option with one more token that names it. -/
def OptionMatch.named (found : OptionMatch) (token : Token) : OptionMatch :=
  { found with tokens := found.tokens ++ [token] }

/-- The matched option with one more value. -/
def OptionMatch.given (found : OptionMatch) (value : Bound) : OptionMatch :=
  { found with binding := { found.binding with values := found.binding.values ++ [value] } }

namespace Ledger

variable {β : Type}

/-- The ledger before the first token. -/
def start (tree : CommandTree β) (command : SymbolId) : Except Mishap Ledger := do
  let scope ← tree.fetchScope command
  return { command, scope, commands := [⟨command, none, [], []⟩] }

/-- The ledger with one more token. -/
def record (ledger : Ledger) (token : Token) : Ledger :=
  { ledger with tokens := ledger.tokens ++ [token] }

/-- The ledger with a change to the last command. -/
def onCommand (change : CommandMatch → CommandMatch) (ledger : Ledger) : Ledger :=
  { ledger with commands := ledger.commands.modifyLast change }

/-- The ledger with a change to the matched option at a place. -/
def onOption (place : ℕ) (change : OptionMatch → OptionMatch) (ledger : Ledger) :
    Except Mishap Ledger :=
  if place < ledger.options.length then
    return { ledger with options := ledger.options.modify place change }
  else throw (.noPlace place)

/-- What a token looks like at the current command. -/
def sight (setting : Setting β) (ledger : Ledger) (text : String) : Except Mishap Sighting := do
  if text = "--" then return .doubleDash
  match ← setting.tree.fetchSubcommand ledger.command text with
  | some subcommand => return .command subcommand
  | none =>
      match ledger.scope.resolve text with
      | some option => return .option option none
      | none =>
          match ← Inline.fetchParts setting.config.inlineDelimiters text with
          | none => return .plain
          | some (text, value) =>
              match ledger.scope.resolve text with
              | some option => return .option option (some value)
              | none => return .plain

/-- Descends to a subcommand. -/
def descend (setting : Setting β) (ledger : Ledger) (command : SymbolId) (text : String)
    (position : ℕ) : Except Mishap Ledger := do
  -- The name of the command is logged.
  setting.tree.demand command
  let scope ← setting.tree.fetchScope command
  let token : Token := ⟨text, .command, position⟩
  return { ledger.record token with
    command, scope
    full := 0
    commands := ledger.commands ++ [⟨command, some token, [], []⟩] }

/-- The place of an option, at the end if it has none yet. -/
def enlist (ledger : Ledger) (option argument : SymbolId) : Ledger × ℕ :=
  match ledger.places.lookup option with
  | some place => (ledger, place)
  | none =>
      let place := ledger.options.length
      let entered : Ledger :=
        { ledger with
          options := ledger.options ++ [⟨option, ledger.command, [], ⟨argument, []⟩⟩]
          places := ledger.places ++ [(option, place)] }
      (entered.onCommand fun found => { found with options := found.options ++ [option] }, place)

/-- Takes values for the option at a place while there is room, up to a token that is recognized, or
one that is no truth value where only these are taken. Tells how many tokens were taken. -/
def take (setting : Setting β) (place room : ℕ) (boolOnly : Bool) (position : ℕ) :
    List String → Ledger → Except Mishap (Ledger × ℕ)
  | [], ledger => return (ledger, 0)
  | text :: rest, ledger => do
      if room = 0 then return (ledger, 0)
      if (← ledger.sight setting text) ≠ .plain then return (ledger, 0)
      if boolOnly ∧ (readBool text).isNone then return (ledger, 0)
      let ledger ← (ledger.record ⟨text, .argument, position⟩).onOption place
        (·.given ⟨text, position⟩)
      let (ledger, taken) ← take setting place (room - 1) boolOnly (position + 1) rest ledger
      return (ledger, taken + 1)

/-- Reads an occurrence of an option with its values. Tells how many more tokens were taken. -/
def matchOption (setting : Setting β) (ledger : Ledger) (option : SymbolId)
    (inline : Option String) (text : String) (position : ℕ) (rest : List String) :
    Except Mishap (Ledger × ℕ) :=
  match setting.tree.option? option, setting.tree.slot? option with
  | some node, some _ => do
      -- The name of the option is logged.
      setting.tree.demand option
      let token : Token := ⟨text, .option, position⟩
      let (ledger, place) := (ledger.record token).enlist option node.argument
      let ledger ← ledger.onOption place (·.named token)
      match inline with
      | some value => do
          let ledger ← (setting.inlineValues option value).foldlM
            (fun ledger part => ledger.onOption place (·.given ⟨part, position⟩)) ledger
          return (ledger, 0)
      | none =>
          let taking := setting.taking option
          ledger.take setting place taking.room taking.boolOnly (position + 1) rest
  | _, _ => return (ledger, 0)

/-- Writes down a token that matches nothing, with an error if the command allows none. -/
def reject (setting : Setting β) (ledger : Ledger) (text : String) (position : ℕ) :
    Except Mishap Ledger := do
  let token : Token := ⟨text, .unparsed, position⟩
  let ledger := { ledger.record token with unmatched := ledger.unmatched ++ [token] }
  if (setting.tree.command? ledger.command).any (·.strict) then
    let suggestion ←
      if setting.config.suggestions then
        Suggestion.nearest text <$> setting.tree.fetchCandidates ledger.scope ledger.command
      else pure none
    return { ledger with
      errors := ledger.errors ++ [⟨.unrecognized text suggestion, some position, none⟩] }
  else return ledger

/-- Binds a token to the first of the given arguments of the current command that has room. -/
def bind (setting : Setting β) (text : String) (position : ℕ) :
    List SymbolId → Ledger → Except Mishap Ledger
  | [], ledger => ledger.reject setting text position
  | argument :: arguments, ledger =>
      match ledger.commands.getLast? with
      | none => ledger.reject setting text position
      | some found =>
          let bound := (found.arguments.find? (·.argument = argument)).elim 0 (·.values.length)
          if bound < ((setting.tree.arity? argument).map (·.most)).getD 0 then
            let token : Token := ⟨text, .argument, position⟩
            return (ledger.record token).onCommand fun found =>
              { found with arguments := Binding.enter argument ⟨text, position⟩ found.arguments }
          else bind setting text position arguments { ledger with full := ledger.full + 1 }

/-- Reads a token that is not recognized, and is no value of an option. -/
def place (setting : Setting β) (ledger : Ledger) (text : String) (position : ℕ) :
    Except Mishap Ledger :=
  ledger.bind setting text position ((setting.tree.arguments ledger.command).drop ledger.full)

/-- Reads one more token, with the tokens after it. Tells how many of these were taken with it. -/
def advance (setting : Setting β) (ledger : Ledger) (text : String) (position : ℕ)
    (rest : List String) : Except Mishap (Ledger × ℕ) := do
  if ledger.literal then return (← ledger.place setting text position, 0)
  match ← ledger.sight setting text with
  | .doubleDash =>
      return ({ ledger.record ⟨text, .doubleDash, position⟩ with literal := true }, 0)
  | .command command => return (← ledger.descend setting command text position, 0)
  | .option option inline => ledger.matchOption setting option inline text position rest
  | .plain | .torn => return (← ledger.place setting text position, 0)

/-- Reads tokens from a position on. -/
def walk (setting : Setting β) (position : ℕ) (tokens : List String) (ledger : Ledger) :
    Except Mishap Ledger :=
  match tokens with
  | [] => return ledger
  | text :: rest => do
      let (ledger, taken) ← ledger.advance setting text position rest
      walk setting (position + 1 + taken) (rest.drop taken) ledger
termination_by tokens.length
decreasing_by
  rw [List.length_drop, List.length_cons]
  omega

end Ledger

end CommandLine
