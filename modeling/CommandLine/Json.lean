/-!
# JSON documents

The data of JSON and its indented text: two spaces for each level, one item or member a line,
and nothing between the brackets of an empty array or object. In a string only the characters
that JSON does not allow as themselves are escaped.
-/

namespace CommandLine

/--
A JSON document. A number is kept as it is written. `unpaired` is a string literal in which half
of a surrogate pair stands alone, or an object with such a literal among its keys: it is
well-formed JSON, but stands for no data.
-/
inductive Json where
  | null
  | bool (value : Bool)
  | number (numeral : String)
  | string (text : String)
  | unpaired
  | array (items : List Json)
  | object (members : List (String × Json))

namespace Json

/-- A natural number as a document. -/
def ofNat (n : Nat) : Json := .number (toString n)

/-- A value that may be missing, `null` when it is. -/
def ofOption (encode : α → Json) : Option α → Json
  | none => .null
  | some value => encode value

/-- A hexadecimal digit in lower case. -/
def hexDigit (n : Nat) : Char := (Nat.digitChar n).toLower

/-- One character inside a string literal. -/
def escape (c : Char) : List Char :=
  match c with
  | '"' => ['\\', '"']
  | '\\' => ['\\', '\\']
  | '\n' => ['\\', 'n']
  | '\r' => ['\\', 'r']
  | '\t' => ['\\', 't']
  | c =>
      if c.toNat = 0x8 then ['\\', 'b']
      else if c.toNat = 0xC then ['\\', 'f']
      else if c.toNat < 0x20 then
        ['\\', 'u', '0', '0', hexDigit (c.toNat / 16), hexDigit (c.toNat % 16)]
      else [c]

/-- A text as a string literal. -/
def quote (text : String) : String :=
  String.ofList ('"' :: text.toList.flatMap escape ++ ['"'])

/-- A line break followed by the indentation of a level. -/
def lineBreak (level : Nat) : String := String.ofList ('\n' :: List.replicate (2 * level) ' ')

mutual

/-- The indented text of a document whose first line starts at the given level. -/
def render (level : Nat) : Json → String
  | .null => "null"
  | .bool value => if value then "true" else "false"
  | .number numeral => numeral
  | .string text => quote text
  | .unpaired => "null"
  | .array [] => "[]"
  | .array (item :: items) =>
      "[" ++ lineBreak (level + 1) ++ render (level + 1) item ++ renderItems (level + 1) items
        ++ lineBreak level ++ "]"
  | .object [] => "\x7b\x7d"
  | .object ((key, value) :: members) =>
      "\x7b" ++ lineBreak (level + 1) ++ quote key ++ ": " ++ render (level + 1) value
        ++ renderMembers (level + 1) members ++ lineBreak level ++ "\x7d"

/-- The items of an array after the first one. -/
def renderItems (level : Nat) : List Json → String
  | [] => ""
  | item :: items => "," ++ lineBreak level ++ render level item ++ renderItems level items

/-- The members of an object after the first one. -/
def renderMembers (level : Nat) : List (String × Json) → String
  | [] => ""
  | (key, value) :: members =>
      "," ++ lineBreak level ++ quote key ++ ": " ++ render level value
        ++ renderMembers level members

end

/-- The indented text of a document. -/
def pretty (document : Json) : String := render 0 document

end CommandLine.Json
