import CommandLine.Value.Type

/-!
# Converting raw texts

All raw texts bound to one argument are converted together. A list type, or more than one text,
gives a list; a truth value without a text means that its option was given.
-/

namespace CommandLine

/-- Why raw texts could not become a value. -/
inductive ConversionError where
  | invalid (raw typeName : String)
  | missing (typeName : String)
  deriving DecidableEq, Repr

namespace ConversionError

/-- The text that was not accepted, if one was given. -/
def raw? : ConversionError → Option String
  | .invalid raw _ => some raw
  | .missing _ => none

/-- The name of the type that the value should have had. -/
def typeName : ConversionError → String
  | .invalid _ typeName => typeName
  | .missing typeName => typeName

/-- The error in words. -/
def message : ConversionError → String
  | .invalid raw typeName => "cannot parse '" ++ raw ++ "' as " ++ typeName
  | .missing typeName => "no value supplied for " ++ typeName

end ConversionError

namespace ValueType

/-- The value of one raw text, or the error that names it. -/
def readOne (type : ValueType) (raw : String) : Except ConversionError Value :=
  match type.readScalar raw with
  | some value => .ok value
  | none => .error (.invalid raw type.name)

/-- The values of several raw texts, or the error that names the first one not accepted. -/
def readEach (type : ValueType) : List String → Except ConversionError (List Value)
  | [] => .ok []
  | raw :: raws =>
      match type.readOne raw with
      | .error error => .error error
      | .ok value =>
          match type.readEach raws with
          | .error error => .error error
          | .ok values => .ok (value :: values)

/-- The value that the raw texts bound to one argument stand for together. -/
def convert (type : ValueType) (raws : List String) : Except ConversionError Value :=
  if type.isList || decide (1 < raws.length) then (type.readEach raws).map .list
  else
    match raws with
    | raw :: _ => type.readOne raw
    | [] => if type.isBool then .ok (.bool true) else .error (.missing type.name)

end CommandLine.ValueType
