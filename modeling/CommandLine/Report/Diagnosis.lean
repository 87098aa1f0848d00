import CommandLine.Report.Problem
import CommandLine.Report
import CommandLine.Suggestion

/-!
# What is wrong with a command line

All errors of a report are found, in this order: tokens that match nothing; bindings whose number
of values or whose conversion fails, and arguments that were given nothing; values that validators
reject; required options that were not given; a command that needs a subcommand. None of them
hides another, but a binding with a wrong number of values is not converted, and only a converted
value is validated.
-/

namespace CommandLine

/-- What becomes of the raw values bound to an argument. -/
inductive Settlement where
  | tooFew
  | tooMany
  /-- There is no value, and none that its absence stands for. -/
  | idle
  | converted (value : Except ConversionError Value)

/-- What becomes of raw values, by the arity of their argument and then by its type. -/
def ArgumentNode.settle (node : ArgumentNode) (raws : List String) : Settlement :=
  if raws.length < node.arity.least then .tooFew
  else if node.arity.most < raws.length then .tooMany
  else if raws.isEmpty ∧ !node.type.isBool ∧ !node.type.isList then .idle
  else .converted (node.type.convert raws)

namespace Settlement

/-- The value that raw values were converted to. -/
def value? : Settlement → Option Value
  | .converted (.ok value) => some value
  | _ => none

/-- The error that the conversion of raw values ended with. -/
def error? : Settlement → Option ConversionError
  | .converted (.error error) => some error
  | _ => none

end Settlement

/-- The position of the first value with a given text. -/
def Binding.positionOf? (binding : Binding) (text : String) : Option Nat :=
  (binding.values.find? (·.text = text)).map (·.position)

namespace Report

variable {β : Type}

/-- What becomes of the values of a binding. -/
def settle (report : Report β) (binding : Binding) : Settlement :=
  (report.tree.argument? binding.argument).elim .idle (·.settle binding.raws)

/-- The error about a token that matches nothing, under a command that does not allow it. -/
def unrecognized? (report : Report β) (reading : Reading) : Option ParseError :=
  if (report.tree.command? reading.command).any (·.strict) then
    let suggestion :=
      if report.config.suggestions then
        Suggestion.nearest reading.text
          (report.tree.candidates (report.setting.scope reading.command) reading.command)
      else none
    some ⟨.unrecognized reading.text suggestion, some reading.position, none⟩
  else none

/-- The error that a binding ends with. A failed conversion is placed at the culprit's token. -/
def bindingError? (report : Report β) (owner : Owner) (position : Option Nat)
    (binding : Binding) : Option ParseError :=
  match report.tree.argument? binding.argument with
  | none => none
  | some node =>
      match node.settle binding.raws with
      | .tooFew => some ⟨.tooFew owner, position, some binding.argument⟩
      | .tooMany =>
          some ⟨.tooMany owner node.arity.most binding.values.length, position,
            some binding.argument⟩
      | .idle => none
      | .converted (.ok _) => none
      | .converted (.error error) =>
          let raw := error.raw?.getD ""
          some ⟨.unconvertible owner raw error.typeName,
            (binding.positionOf? raw).or position, some binding.argument⟩

/-- The error about a positional argument that was given nothing although it needs a value. -/
def missingArgument? (report : Report β) (found : CommandMatch) (argument : SymbolId) :
    Option ParseError :=
  match report.tree.argument? argument with
  | none => none
  | some node =>
      if found.arguments.all (·.argument ≠ argument) ∧ 0 < node.arity.least
          ∧ node.default.isNone then
        some ⟨.tooFew (.command (report.tree.name found.command)),
          found.token.map (·.position), some argument⟩
      else none

/-- The error that the binding of a matched option ends with. -/
def optionBindingError? (report : Report β) (found : OptionMatch) : Option ParseError :=
  report.bindingError? (.option (report.tree.displayName found.option))
    (found.tokens.head?.map (·.position)) found.binding

/-- The errors about the positional arguments of a command on the path. -/
def argumentErrors (report : Report β) (found : CommandMatch) : List ParseError :=
  found.arguments.filterMap
      (report.bindingError? (.command (report.tree.name found.command))
        (found.token.map (·.position)))
    ++ (report.tree.arguments found.command).filterMap (report.missingArgument? found)

/-- The errors about values that validators reject, one for each rejection. -/
def rejections (validators : List Validator) (candidate : Candidate) (position : Option Nat) :
    List ParseError :=
  validators.filterMap fun validator =>
    (validator candidate).map fun complaint =>
      ⟨.rejected complaint, position, some candidate.symbol⟩

/-- The rejections of a matched option's value: by the option's validators, then its argument's. -/
def optionRejections (report : Report β) (found : OptionMatch) : List ParseError :=
  match (report.settle found.binding).value? with
  | none => []
  | some value =>
      rejections
        (((report.tree.option? found.option).elim [] (·.validators))
          ++ ((report.tree.argument? found.binding.argument).elim [] (·.validators)))
        ⟨found.option, report.tree.displayName found.option, found.binding.raws, value⟩
        (found.tokens.head?.map (·.position))

/-- The rejections of the value of a positional argument. -/
def argumentRejections (report : Report β) (binding : Binding) : List ParseError :=
  match (report.settle binding).value? with
  | none => []
  | some value =>
      rejections ((report.tree.argument? binding.argument).elim [] (·.validators))
        ⟨binding.argument, report.tree.name binding.argument, binding.raws, value⟩
        (binding.values.head?.map (·.position))

/-- The error about an option in scope that is required, was not given and has no default. -/
def missingOption? (report : Report β) (option : SymbolId) : Option ParseError :=
  if report.tree.isRequired option ∧ option ∉ report.optionIds
      ∧ !(report.tree.slot? option).any (·.default.isSome) then
    some ⟨.missingOption (report.tree.displayName option), none, some option⟩
  else none

/-- The error about a command that has subcommands but no action of its own. -/
def missingCommand? (report : Report β) (command : SymbolId) : Option ParseError :=
  let needsSubcommand (node : CommandNode β) : Bool :=
    !node.commands.isEmpty && node.action.isNone
  if (report.tree.command? command).any needsSubcommand then
    some ⟨.missingCommand, none, some command⟩
  else none

/-- The errors about tokens that match nothing. -/
def unrecognizedErrors (report : Report β) : List ParseError :=
  report.unmatchedReadings.filterMap report.unrecognized?

/-- The errors about numbers of values and conversions. -/
def bindingErrors (report : Report β) : List ParseError :=
  report.options.filterMap report.optionBindingError? ++ report.path.flatMap report.argumentErrors

/-- The errors about values that validators reject. -/
def validationErrors (report : Report β) : List ParseError :=
  report.options.flatMap report.optionRejections
    ++ (report.path.flatMap (·.arguments)).flatMap report.argumentRejections

/-- The errors about what was not given at the deepest command. -/
def omissionErrors (report : Report β) : List ParseError :=
  (report.setting.scope report.terminal).options.filterMap report.missingOption?
    ++ (report.missingCommand? report.terminal).toList

/-- Everything that is wrong with the command line. -/
def errors (report : Report β) : List ParseError :=
  report.unrecognizedErrors ++ report.bindingErrors ++ report.validationErrors
    ++ report.omissionErrors

end CommandLine.Report
