import CommandLine.Json
import CommandLine.Number.Integer

/-!
# Reading JSON

Documents are read from a list of characters by functions that return what they read and the
characters left over. A string literal may hold unpaired surrogates, also as a key: it is read to
its end, and what it belongs to stands for no data. Each step down or along a document takes one
unit of fuel, and twice the number of characters is always enough, because every two steps
consume one.
-/

namespace CommandLine.Json

/-- The four characters that may stand between the tokens of a document. -/
def isSpace (c : Char) : Bool := c == ' ' || c == '\t' || c == '\n' || c == '\r'

/-- The characters after any space. -/
def skipSpace (chars : List Char) : List Char := chars.dropWhile isSpace

/-- The value of a hexadecimal digit. -/
def hexValue? (c : Char) : Option Nat :=
  if c.isDigit then some (c.toNat - '0'.toNat)
  else if 'a' ≤ c ∧ c ≤ 'f' then some (c.toNat - 'a'.toNat + 10)
  else if 'A' ≤ c ∧ c ≤ 'F' then some (c.toNat - 'A'.toNat + 10)
  else none

/-- The number that four hexadecimal digits spell. -/
def hexUnit? (a b c d : Char) : Option Nat := do
  let a ← hexValue? a
  let b ← hexValue? b
  let c ← hexValue? c
  let d ← hexValue? d
  return ((a * 16 + b) * 16 + c) * 16 + d

/-- The character of an escape with one letter. -/
def shortEscape? : Char → Option Char
  | '"' => some '"'
  | '\\' => some '\\'
  | '/' => some '/'
  | 'b' => some '\x08'
  | 'f' => some '\x0c'
  | 'n' => some '\n'
  | 'r' => some '\r'
  | 't' => some '\t'
  | _ => none

/--
The rest of a string literal after its opening quote, as code units: a character stands for its
code point, an escape with four digits for the number they spell.
-/
def units? : List Char → Option (List Nat × List Char)
  | '"' :: rest => some ([], rest)
  | '\\' :: 'u' :: a :: b :: c :: d :: rest => do
      let unit ← hexUnit? a b c d
      let (units, rest) ← units? rest
      return (unit :: units, rest)
  | '\\' :: c :: rest => do
      let c ← shortEscape? c
      let (units, rest) ← units? rest
      return (c.toNat :: units, rest)
  | c :: rest => do
      guard (0x20 ≤ c.toNat ∧ c ≠ '\\')
      let (units, rest) ← units? rest
      return (c.toNat :: units, rest)
  | [] => none

/-- The text of code units, in which surrogates have to stand in pairs. -/
def textOfUnits? : List Nat → Option (List Char)
  | [] => some []
  | high :: rest =>
      if 0xD800 ≤ high ∧ high < 0xDC00 then
        match rest with
        | [] => none
        | low :: rest =>
            if 0xDC00 ≤ low ∧ low < 0xE000 then
              (textOfUnits? rest).map
                (Char.ofNat (0x10000 + (high - 0xD800) * 0x400 + (low - 0xDC00)) :: ·)
            else none
      else if 0xDC00 ≤ high ∧ high < 0xE000 then none
      else (textOfUnits? rest).map (Char.ofNat high :: ·)

/--
The rest of a string literal after its opening quote: the text that it stands for, if it stands
for one, and what follows it.
-/
def takeLiteral? (chars : List Char) : Option (Option String × List Char) := do
  let (units, rest) ← units? chars
  return ((textOfUnits? units).map String.ofList, rest)

/-- The digits of a numeral, at least one, and what follows them. -/
def takeDigits? (chars : List Char) : Option (List Char × List Char) :=
  let digits := chars.takeWhile Char.isDigit
  if digits.isEmpty then none else some (digits, chars.dropWhile Char.isDigit)

/-- The whole part of a numeral; it has no zero in front of other digits. -/
def takeWhole? : List Char → Option (List Char × List Char)
  | '0' :: rest => if (rest.head?.any Char.isDigit) then none else some (['0'], rest)
  | chars => takeDigits? chars

/-- The decimal places of a numeral with their point, if there are any. -/
def takePlaces? : List Char → Option (List Char × List Char)
  | '.' :: rest => do
      let (digits, rest) ← takeDigits? rest
      return ('.' :: digits, rest)
  | chars => some ([], chars)

/-- The power of ten of a numeral with its letter, if there is one. -/
def takePower? : List Char → Option (List Char × List Char)
  | [] => some ([], [])
  | c :: rest =>
      if c = 'e' ∨ c = 'E' then
        match rest with
        | sign :: rest' =>
            if sign = '+' ∨ sign = '-' then do
              let (digits, rest) ← takeDigits? rest'
              return (c :: sign :: digits, rest)
            else do
              let (digits, rest) ← takeDigits? rest
              return (c :: digits, rest)
        | [] => none
      else some ([], c :: rest)

/-- A numeral and what follows it. -/
def takeNumeral? (chars : List Char) : Option (String × List Char) := do
  let (sign, chars) :=
    match chars with
    | '-' :: rest => (['-'], rest)
    | chars => ([], chars)
  let (whole, chars) ← takeWhole? chars
  let (places, chars) ← takePlaces? chars
  let (power, chars) ← takePower? chars
  return (String.ofList (sign ++ whole ++ places ++ power), chars)

/-- The characters after a given word. -/
def afterWord? (word : String) (chars : List Char) : Option (List Char) :=
  if word.toList.isPrefixOf chars then some (chars.drop word.length) else none

/-- A member's key with its colon, up to its value. -/
def takeKey? (chars : List Char) : Option (Option String × List Char) := do
  match skipSpace chars with
  | '"' :: rest =>
      let (key, rest) ← takeLiteral? rest
      match skipSpace rest with
      | ':' :: rest => return (key, rest)
      | _ => none
  | _ => none

/-- The document that members make, given the texts that their keys stand for. -/
def ofMembers (members : List (Option String × Json)) : Json :=
  let named? (member : Option String × Json) : Option (String × Json) :=
    member.1.map (·, member.2)
  (members.mapM named?).elim .unpaired .object

mutual

/-- One document and what follows it. -/
def take? : (fuel : Nat) → List Char → Option (Json × List Char)
  | 0, _ => none
  | fuel + 1, chars =>
      match skipSpace chars with
      | [] => none
      | '"' :: rest => do
          let (text, rest) ← takeLiteral? rest
          return (text.elim .unpaired .string, rest)
      | '[' :: rest =>
          match skipSpace rest with
          | ']' :: rest => some (.array [], rest)
          | rest => do
              let (items, rest) ← takeItems? fuel rest
              return (.array items, rest)
      | '{' :: rest =>
          match skipSpace rest with
          | '}' :: rest => some (.object [], rest)
          | rest => do
              let (members, rest) ← takeMembers? fuel rest
              return (ofMembers members, rest)
      | 'n' :: rest => do return (.null, ← afterWord? "ull" rest)
      | 't' :: rest => do return (.bool true, ← afterWord? "rue" rest)
      | 'f' :: rest => do return (.bool false, ← afterWord? "alse" rest)
      | chars => do
          let (numeral, rest) ← takeNumeral? chars
          return (.number numeral, rest)

/-- The items of an array that has one, up to and with its closing bracket. -/
def takeItems? : (fuel : Nat) → List Char → Option (List Json × List Char)
  | 0, _ => none
  | fuel + 1, chars => do
      let (item, rest) ← take? fuel chars
      match skipSpace rest with
      | ',' :: rest =>
          let (items, rest) ← takeItems? fuel rest
          return (item :: items, rest)
      | ']' :: rest => return ([item], rest)
      | _ => none

/-- The members of an object that has one, up to and with its closing brace. -/
def takeMembers? :
    (fuel : Nat) → List Char → Option (List (Option String × Json) × List Char)
  | 0, _ => none
  | fuel + 1, chars => do
      let (key, rest) ← takeKey? chars
      let (value, rest) ← take? fuel rest
      match skipSpace rest with
      | ',' :: rest =>
          let (members, rest) ← takeMembers? fuel rest
          return ((key, value) :: members, rest)
      | '}' :: rest => return ([(key, value)], rest)
      | _ => none

end

/-- The document that a text consists of, with nothing but space around it. -/
def parse? (text : String) : Option Json := do
  let chars := text.toList
  let (document, rest) ← take? (2 * chars.length + 1) chars
  guard (skipSpace rest).isEmpty
  return document

/-- The integer that a document is, written without a point, an exponent or a negative zero. -/
def int? : Json → Option Int
  | .number numeral => do
      let (negative, chars) := Number.takeSign numeral.toList
      let magnitude ← Number.digits? chars
      guard !(negative && magnitude == 0)
      return if negative then -(magnitude : Int) else magnitude
  | _ => none

/-- The truth value that a document is. -/
def bool? : Json → Option Bool
  | .bool value => some value
  | _ => none

/-- The only character of the text that a document is. -/
def char? : Json → Option Char
  | .string text =>
      match text.toList with
      | [c] => some c
      | _ => none
  | _ => none

/-- The items of the array that a document is. -/
def items? : Json → Option (List Json)
  | .array items => some items
  | _ => none

end CommandLine.Json
