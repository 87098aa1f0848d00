/-!
# How many values an argument takes

An arity is a least and a greatest number of values. `between` builds one whose greatest number
is never below its least; the fields can also be given directly, and an arity with `most` below
`least` accepts no count at all.
-/

namespace CommandLine

/-- The least and the greatest number of values. -/
structure Arity where
  least : Nat
  most : Nat
  deriving DecidableEq, Repr

namespace Arity

/-- The greatest number that stands for any number of values, the largest 64-bit count. -/
def many : Nat := UInt64.size - 1

/-- No value. -/
def zero : Arity := ⟨0, 0⟩

/-- At most one value. -/
def zeroOrOne : Arity := ⟨0, 1⟩

/-- One value. -/
def exactlyOne : Arity := ⟨1, 1⟩

/-- Any number of values. -/
def zeroOrMore : Arity := ⟨0, many⟩

/-- Any number of values but none. -/
def oneOrMore : Arity := ⟨1, many⟩

/-- The arity with the given bounds, the upper one raised to the lower one where it is less. -/
def between (least most : Nat) : Arity := ⟨least, if most < least then least else most⟩

/-- Whether any number of values from the least one on is accepted. -/
def isUnbounded (arity : Arity) : Bool := arity.most == many

/-- Whether a number of values lies within the bounds. -/
def accepts (arity : Arity) (count : Nat) : Bool :=
  decide (arity.least ≤ count) && decide (count ≤ arity.most)

/-- The bounds of `between` are in order. -/
theorem least_le_most_between (least most : Nat) :
    (between least most).least ≤ (between least most).most := by
  unfold between
  split <;> simp_all

end CommandLine.Arity
