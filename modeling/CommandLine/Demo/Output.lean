import CommandLine.Json
import CommandLine.Report.Origin
import CommandLine.Report.Selection

/-!
# Reports in print

A report is printed as lines of text or as a JSON document. Either way it names the command path,
the matched options and the positional arguments with their values, what was unmatched, and the
errors. Members of an object are sorted by name.
-/

namespace CommandLine.Demo

variable {β : Type}

mutual

/--
A value as a document. A float is written as `Decimal.text` writes it, which can differ from the
shortest form that JSON writers choose, such as one with an exponent. No argument of the sample
program is a float, so no report that it prints has one.
-/
def valueJson : Value → Json
  | .bool value => .bool value
  | .string value => .string value
  | .int value => .number (toString value.toInt)
  | .uint value => .number (toString value.toNat)
  | .float value => if value.isFinite then .number (Number.Decimal.text value) else .null
  | .path value => .string value
  | .list items => .array (valuesJson items)

/-- Values as documents. -/
def valuesJson : List Value → List Json
  | [] => []
  | value :: values => valueJson value :: valuesJson values

end

/-- The word for a kind of token. -/
def kindText : TokenKind → String
  | .command => "Command"
  | .option => "Option"
  | .argument => "Argument"
  | .doubleDash => "DoubleDash"
  | .unparsed => "Unparsed"

/-- The word for a kind of error. -/
def errorText : ErrorKind → String
  | .unrecognizedToken => "UnrecognizedToken"
  | .missingRequiredOption => "MissingRequiredOption"
  | .missingRequiredCommand => "MissingRequiredCommand"
  | .arityViolation => "ArityViolation"
  | .conversionFailure => "ConversionFailure"
  | .validationFailure => "ValidationFailure"

/-- A token as a document, its members sorted by name. -/
def tokenJson (token : Token) : Json :=
  .object [("kind", .string (kindText token.kind)), ("position", .ofNat token.position),
    ("value", .string token.text)]

/-- An error as a document, its members sorted by name. -/
def errorJson (error : ParseError) : Json :=
  .object [("kind", .string (errorText error.kind)), ("message", .string error.message),
    ("position", .ofOption .ofNat error.position),
    ("suggestion", .ofOption .string error.suggestion?),
    ("symbol", .ofOption .ofNat error.symbol)]

/-- A report as a document, its members sorted by name. -/
def reportJson (report : Report β) : Evaluating Json := do
  let options : List Json ← report.options.mapM fun found => do
    return .object [("option", .string (report.tree.displayName found.option)),
      ("value", .ofOption valueJson (← report.valueOf found.option))]
  let arguments : List Json ← (report.path.flatMap (·.arguments)).mapM fun binding => do
    return .object [("argument", .string (report.tree.name binding.argument)),
      ("value", .ofOption valueJson (← report.valueOf binding.argument))]
  return .object [
    ("arguments", .array arguments),
    ("commands", .array (report.path.map fun found => .string (report.tree.name found.command))),
    ("errors", .array (report.errors.map errorJson)),
    ("options", .array options),
    ("tokens", .array (report.tokens.map tokenJson)),
    ("unmatched", .array (report.unmatched.map tokenJson))]

/-- The text of a value in a report; a value that could not be converted has none. -/
def shownValue (report : Report β) (id : SymbolId) : Evaluating String := do
  return (← report.valueOf id).elim "<invalid>" Value.text

/-- A report in lines of text. -/
def reportLines (report : Report β) : Evaluating (List String) := do
  let options ← report.options.mapM fun found => do
    return "option " ++ report.tree.displayName found.option ++ ": "
      ++ (← shownValue report found.option)
  let arguments ← (report.path.flatMap (·.arguments)).mapM fun binding => do
    return "argument " ++ report.tree.name binding.argument ++ ": "
      ++ (← shownValue report binding.argument)
  return ["command: " ++ " ".intercalate (report.path.map (report.tree.name ·.command))]
    ++ options ++ arguments
    ++ report.unmatched.map ("unmatched: " ++ ·.text)
    ++ report.errors.map ("error: " ++ ·.text)

/-- What the program prints about the tokens of a line. -/
def tokenLines (tokens : List String) (asJson : Bool) : List String :=
  if asJson then [(Json.array (tokens.map .string)).pretty] else tokens

/--
What the program prints about a report. The sample program's own defaults do not change, so they
are evaluated apart from those of the program.
-/
def parseLines (report : Report β) (asJson : Bool) : List String :=
  let (lines, _) :=
    if asJson then (do return [(← reportJson report).pretty] : Evaluating (List String)).run []
    else (reportLines report).run []
  lines

end CommandLine.Demo
