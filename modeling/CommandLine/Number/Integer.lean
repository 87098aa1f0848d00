/-!
# Whole numbers in texts

A whole number is an optional sign followed by at least one ASCII digit, and nothing else. The
signed form takes either sign, the unsigned form only a plus, and a number outside the 64-bit
range of its form is not read at all.
-/

namespace CommandLine.Number

/-- The value of a run of decimal digits, most significant first; empty runs have none. -/
def digits? (chars : List Char) : Option Nat :=
  if chars ≠ [] ∧ chars.all Char.isDigit then
    some (chars.foldl (fun value c => 10 * value + (c.toNat - '0'.toNat)) 0)
  else none

/-- Whether a leading minus was read, and what follows the optional sign. -/
def takeSign : List Char → Bool × List Char
  | '-' :: rest => (true, rest)
  | '+' :: rest => (false, rest)
  | chars => (false, chars)

/-- The signed number that a text spells, if it fits 64 bits. -/
def int64? (text : String) : Option Int64 := do
  let (negative, chars) := takeSign text.toList
  let magnitude ← digits? chars
  let value : Int := if negative then -magnitude else magnitude
  if Int64.minValue.toInt ≤ value ∧ value ≤ Int64.maxValue.toInt then some (Int64.ofInt value)
  else none

/-- The unsigned number that a text spells, if it fits 64 bits; a minus is never read. -/
def uint64? (text : String) : Option UInt64 := do
  let (negative, chars) := takeSign text.toList
  let value ← digits? chars
  if !negative ∧ value < UInt64.size then some (UInt64.ofNat value) else none

end CommandLine.Number
