import CommandLine.Number.Integer
import CommandLine.Number.Binary64

/-!
# Decimal texts of doubles

A double is written with the fewest decimal digits that read back to it, of those the ones
nearest to its value and upward on a tie, and always in positional form: no exponent, and no
point on a whole number. It is read from an optional sign, decimal digits with an optional point
among them, and an optional power of ten, or from a word for infinity or for no number.
-/

namespace CommandLine.Number.Decimal

open Binary64

/-- The number of decimal digits of a natural number. -/
def width (n : Nat) : Nat := (Nat.toDigits 10 n).length

/--
The digits and the power of ten of the shortest decimal of the positive double with the given
significand and last place. Quarters of the last place are counted so that the ends of the
interval that rounds to the double are whole; below a power of two the doubles lie half as far
apart. The ends belong to the interval exactly when the significand is even. On the grid of each
length, only the two neighbours of the value have to be tried.
-/
def shortest (m : Nat) (q : Int) : Nat × Int :=
  let (unitNum, unitDen) := scaled 2 1 1 (2 - q)
  let low := if m = leadingBit ∧ q > minLastPlace then 4 * m - 1 else 4 * m - 2
  let high := 4 * m + 2
  let lead : Int := width (4 * m * unitNum) - width unitDen
  let (leadNum, leadDen) := scaled 10 (4 * m * unitNum) unitDen lead
  let top := if leadNum < leadDen then lead else lead + 1
  let attempt (length : Nat) : Option (Nat × Int) :=
    let t := top - (length + 1 : Nat)
    let (num, den) := scaled 10 unitNum unitDen t
    let inside (c : Nat) : Bool :=
      if m % 2 = 0 then decide (low * num ≤ c * den) && decide (c * den ≤ high * num)
      else decide (low * num < c * den) && decide (c * den < high * num)
    let floor := 4 * m * num / den
    let remainder := 4 * m * num % den
    match inside floor, inside (floor + 1) with
    | true, true => some (if 2 * remainder < den then floor else floor + 1, t)
    | true, false => some (floor, t)
    | false, true => some (floor + 1, t)
    | false, false => none
  ((List.range 17).findSome? attempt).getD (0, 0)

/-- The digits times a power of ten in positional form, without zeros at the end of a fraction. -/
def positional (digits : Nat) (t : Int) : String :=
  let unit := Nat.pow 10 t.natAbs
  if 0 ≤ t then toString (digits * unit)
  else
    let places := (Nat.toDigits 10 (unit + digits % unit)).drop 1
    let kept := (places.reverse.dropWhile (· == '0')).reverse
    let whole := toString (digits / unit)
    if kept.isEmpty then whole else whole ++ "." ++ String.ofList kept

/-- The text of a double. -/
def text (x : Float) : String :=
  let bits := x.toBits.toNat
  if exponent bits = 2047 ∧ fraction bits ≠ 0 then "NaN"
  else
    let magnitude :=
      if exponent bits = 2047 then "inf"
      else if significand bits = 0 then "0"
      else
        let (digits, t) := shortest (significand bits) (lastPlace bits)
        positional digits t
    if negative bits then "-" ++ magnitude else magnitude

/--
The bits of the double nearest to `digits * 10 ^ t`. Powers of ten that are certain to leave the
range of a double are not computed.
-/
def magnitudeBits (digits : Nat) (t : Int) : Nat :=
  let top := t + width digits
  if digits = 0 ∨ top < -330 then 0
  else if top > 320 then infinityBits
  else
    let (num, den) := scaled 10 digits 1 (-t)
    nearestBits num den

/-- A power of ten from which on the further digits of a power are passed over. -/
def powerLimit : Nat := 65536

/--
The power that some digits spell. It only grows up to the first value that is not below
`powerLimit`, which is far outside the range of a double.
-/
def power? (chars : List Char) : Option Nat :=
  if chars ≠ [] ∧ chars.all Char.isDigit then
    some (chars.foldl
      (fun value c =>
        if value < powerLimit then 10 * value + (c.toNat - '0'.toNat) else value) 0)
  else none

/-- The power of ten after an `e`; nothing at all stands for none. -/
def powerOfTen? : List Char → Option Int
  | [] => some 0
  | c :: rest =>
      if c = 'e' ∨ c = 'E' then do
        let (negative, chars) := takeSign rest
        let value ← power? chars
        some (if negative then -(value : Int) else value)
      else none

/-- The bits of the unsigned number that some characters spell. -/
def unsignedBits? (chars : List Char) : Option Nat := do
  let word := String.ofList (chars.map Char.toLower)
  if word = "inf" ∨ word = "infinity" then return infinityBits
  if word = "nan" then return infinityBits + leadingBit / 2
  let whole := chars.takeWhile Char.isDigit
  let rest := chars.dropWhile Char.isDigit
  let (places, rest) :=
    match rest with
    | '.' :: rest => (rest.takeWhile Char.isDigit, rest.dropWhile Char.isDigit)
    | rest => ([], rest)
  let digits ← digits? (whole ++ places)
  let power ← powerOfTen? rest
  return magnitudeBits digits (power - places.length)

/-- The double that a text spells. -/
def float? (text : String) : Option Float := do
  let (negative, chars) := takeSign text.toList
  let bits ← unsignedBits? chars
  return Float.ofBits (UInt64.ofNat (if negative then signBit + bits else bits))

end CommandLine.Number.Decimal
