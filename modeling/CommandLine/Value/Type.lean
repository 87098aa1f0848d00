import CommandLine.Arity
import CommandLine.Value

/-!
# Value types

A value type says which raw texts an argument accepts and what they stand for. `readScalar`
reads one text; a list type reads it with its innermost scalar type.
-/

namespace CommandLine

/-- The type of an argument's values; a custom type brings its name and its reader. -/
inductive ValueType where
  | bool
  | string
  | int
  | uint
  | float
  | path
  | choice (texts : List String)
  | custom (name : String) (read : String → Option Value)
  | list (inner : ValueType)

/-- The truth value that a text spells, in any letter case. -/
def readBool (raw : String) : Option Bool :=
  let word := raw.toList.map Char.toLower
  if word = "true".toList then some true
  else if word = "false".toList then some false
  else none

namespace ValueType

/-- The name of a type in messages and in help; a list is named for its items. -/
def name : ValueType → String
  | .bool => "bool"
  | .string => "string"
  | .int => "integer"
  | .uint => "unsigned integer"
  | .float => "number"
  | .path => "path"
  | .choice texts => "one of [" ++ ", ".intercalate texts ++ "]"
  | .custom name _ => name
  | .list inner => inner.name

/-- Whether a type is the type of truth values, whose options work as flags. -/
def isBool : ValueType → Bool
  | .bool => true
  | _ => false

/-- Whether a type is a list type. -/
def isList : ValueType → Bool
  | .list _ => true
  | _ => false

/--
The arity of an argument that declares none. A list behind an option needs a value, as a
positional argument it may be empty.
-/
def defaultArity (type : ValueType) (forOption : Bool) : Arity :=
  match type with
  | .bool => .zeroOrOne
  | .list _ => if forOption then .oneOrMore else .zeroOrMore
  | _ => .exactlyOne

/-- The value that one raw text stands for. -/
def readScalar : ValueType → String → Option Value
  | .bool, raw => (readBool raw).map .bool
  | .string, raw => some (.string raw)
  | .int, raw => (Number.int64? raw).map .int
  | .uint, raw => (Number.uint64? raw).map .uint
  | .float, raw => (Number.Decimal.float? raw).map .float
  | .path, raw => some (.path raw)
  | .choice texts, raw => if raw ∈ texts then some (.string raw) else none
  | .custom _ read, raw => read raw
  | .list inner, raw => inner.readScalar raw

end CommandLine.ValueType
