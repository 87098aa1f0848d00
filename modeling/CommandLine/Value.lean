import CommandLine.Number.Decimal

/-!
# Values

A value is what an argument's raw texts stand for: a truth value, a text, a number, a path, or a
list of values. Its text is what help and reports print.
-/

namespace CommandLine

/-- A value of an argument. -/
inductive Value where
  | bool (value : Bool)
  | string (value : String)
  | int (value : Int64)
  | uint (value : UInt64)
  | float (value : Float)
  | path (value : String)
  | list (items : List Value)
  deriving Inhabited

namespace Value

mutual

/-- The text of a value; a list is written between brackets with commas. -/
def text : Value → String
  | .bool value => if value then "true" else "false"
  | .string value => value
  | .int value => toString value.toInt
  | .uint value => toString value.toNat
  | .float value => Number.Decimal.text value
  | .path value => value
  | .list items => "[" ++ ", ".intercalate (texts items) ++ "]"

/-- The texts of the items of a list. -/
def texts : List Value → List String
  | [] => []
  | item :: items => item.text :: texts items

end

/-- The truth value that a value holds, if it holds one. -/
def bool? : Value → Option Bool
  | .bool value => some value
  | _ => none

/-- The signed number that a value holds, if it holds one. -/
def int? : Value → Option Int64
  | .int value => some value
  | _ => none

/-- The unsigned number that a value holds, if it holds one. -/
def uint? : Value → Option UInt64
  | .uint value => some value
  | _ => none

end CommandLine.Value
