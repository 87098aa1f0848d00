import CommandLine.Symbol

/-!
# Parse errors

What can be wrong with a command line, and how it is said. Messages are made from names and raw
tokens alone.
-/

namespace CommandLine

/-- The kinds of parse errors. -/
inductive ErrorKind where
  | unrecognizedToken
  | missingRequiredOption
  | missingRequiredCommand
  | arityViolation
  | conversionFailure
  | validationFailure
  deriving DecidableEq, Repr

/-- Whose argument an error is about: an option by its display name, or a command by its name. -/
inductive Owner where
  | option (displayName : String)
  | command (name : String)
  deriving DecidableEq, Repr

/-- What is wrong with a command line. -/
inductive Problem where
  /-- A token matches nothing. -/
  | unrecognized (token : String) (suggestion : Option String)
  /-- A required option was not given. -/
  | missingOption (displayName : String)
  /-- A command that only groups others was not followed by one of them. -/
  | missingCommand
  /-- An argument has fewer values than it needs. -/
  | tooFew (owner : Owner)
  /-- An argument has more values than it takes. -/
  | tooMany (owner : Owner) (most actual : Nat)
  /-- A raw value does not fit the type of its argument. -/
  | unconvertible (owner : Owner) (raw typeName : String)
  /-- A validator rejected a value. -/
  | rejected (complaint : String)
  deriving DecidableEq, Repr

/-- A problem with the token it arose at and the symbol it concerns. -/
structure ParseError where
  problem : Problem
  position : Option Nat := none
  symbol : Option SymbolId := none
  deriving DecidableEq, Repr

namespace Owner

/-- The owner in the middle of a sentence. -/
def text : Owner → String
  | .option displayName => "option '" ++ displayName ++ "'"
  | .command name => "command '" ++ name ++ "'"

/-- The owner at the start of a sentence. -/
def title : Owner → String
  | .option displayName => "Option '" ++ displayName ++ "'"
  | .command name => "Command '" ++ name ++ "'"

/-- The owner after a colon. -/
def entry : Owner → String
  | .option displayName => "option: '" ++ displayName ++ "'"
  | .command name => "command: '" ++ name ++ "'"

end Owner

namespace Problem

/-- The kind of a problem. -/
def kind : Problem → ErrorKind
  | .unrecognized _ _ => .unrecognizedToken
  | .missingOption _ => .missingRequiredOption
  | .missingCommand => .missingRequiredCommand
  | .tooFew _ => .arityViolation
  | .tooMany _ _ _ => .arityViolation
  | .unconvertible _ _ _ => .conversionFailure
  | .rejected _ => .validationFailure

/-- The problem in words. -/
def message : Problem → String
  | .unrecognized token _ => "Unrecognized command or argument '" ++ token ++ "'."
  | .missingOption displayName => "Option '" ++ displayName ++ "' is required."
  | .missingCommand => "Required command was not provided."
  | .tooFew owner => "Required argument missing for " ++ owner.entry ++ "."
  | .tooMany owner most actual =>
      if most = 1 then
        owner.title ++ " expects a single argument but " ++ toString actual ++ " were provided."
      else
        owner.title ++ " expects at most " ++ toString most ++ " arguments but "
          ++ toString actual ++ " were provided."
  | .unconvertible owner raw typeName =>
      "Cannot parse argument '" ++ raw ++ "' for " ++ owner.text ++ " as expected type '"
        ++ typeName ++ "'."
  | .rejected complaint => complaint

/-- The text suggested in place of an unrecognized token. -/
def suggestion? : Problem → Option String
  | .unrecognized _ suggestion => suggestion
  | _ => none

end Problem

namespace ParseError

/-- The kind of an error. -/
def kind (error : ParseError) : ErrorKind := error.problem.kind

/-- The error in words. -/
def message (error : ParseError) : String := error.problem.message

/-- The text suggested in place of an unrecognized token. -/
def suggestion? (error : ParseError) : Option String := error.problem.suggestion?

/-- The error in words, with its suggestion. -/
def text (error : ParseError) : String :=
  match error.suggestion? with
  | none => error.message
  | some suggestion => error.message ++ " Did you mean '" ++ suggestion ++ "'?"

end CommandLine.ParseError
