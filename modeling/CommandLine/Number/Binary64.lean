/-!
# Doubles as binary fractions

A finite double is a whole number of units in its last place. `nearestBits` rounds a ratio of
naturals to the closest double, a half going to the even neighbour, and `significand` and
`lastPlace` take the bits of a double apart again. All arithmetic is exact.
-/

namespace CommandLine.Number.Binary64

/-- The bits of positive infinity. -/
def infinityBits : Nat := 0x7FF0000000000000

/-- The exponent of the smallest unit in the last place. -/
def minLastPlace : Int := -1074

/-- The first significand with 53 binary digits, the value of the digit that is not stored. -/
def leadingBit : Nat := 0x10000000000000

/-- The value of the sign bit. -/
def signBit : Nat := 0x8000000000000000

/-- The ratio `num / den` divided by a power of a base, as a numerator and a denominator. -/
def scaled (base num den : Nat) (e : Int) : Nat × Nat :=
  if e < 0 then (num * Nat.pow base e.natAbs, den) else (num, den * Nat.pow base e.natAbs)

/-- A ratio rounded to a whole number, a half going to the even neighbour. -/
def roundHalfEven (num den : Nat) : Nat :=
  let quotient := num / den
  let remainder := num % den
  if 2 * remainder > den ∨ (2 * remainder = den ∧ quotient % 2 = 1) then quotient + 1
  else quotient

/--
The bits of the double nearest to `num / den`, infinity when it is too large. The unit in the
last place is the largest that leaves 53 binary digits, and no smaller than the smallest one.
Rounding up to the next power of two carries into the exponent by itself.
-/
def nearestBits (num den : Nat) : Nat :=
  if num = 0 then 0
  else
    let guess := max ((num.log2 : Int) - den.log2 - 53) minLastPlace
    let (n, d) := scaled 2 num den guess
    let e := if n / d < 2 * leadingBit then guess else guess + 1
    let (n, d) := scaled 2 num den e
    min ((e - minLastPlace).toNat * leadingBit + roundHalfEven n d) infinityBits

/-- The fraction field of the bits of a double. -/
def fraction (bits : Nat) : Nat := bits % leadingBit

/-- The exponent field of the bits of a double. -/
def exponent (bits : Nat) : Nat := bits / leadingBit % 2048

/-- How many units in the last place a finite double holds. -/
def significand (bits : Nat) : Nat :=
  if exponent bits = 0 then fraction bits else fraction bits + leadingBit

/-- The power of two that is one unit in the last place of a finite double. -/
def lastPlace (bits : Nat) : Int := minLastPlace + (exponent bits - 1 : Nat)

/-- Whether the sign bit is set. -/
def negative (bits : Nat) : Bool := bits / signBit % 2 == 1

end CommandLine.Number.Binary64
