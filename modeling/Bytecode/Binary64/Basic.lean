import Bytecode.Decimal

/-!
# `Bytecode.Binary64.Basic`: the binary64 numbers and reading a decimal as one

A `Binary64` is its 64 bits: a sign bit, eleven bits of exponent and 52 bits of fraction. The
63 bits below the sign are the number's *rank*. The ranks below `infinityRank` count the finite
magnitudes upwards from zero without a gap, `infinityRank` is infinity, and the ranks above it
are not numbers.

* `unitsAt` gives the magnitude of a finite rank exactly, as a whole number of units of
  `2 ^ -1074`, the least positive magnitude. It grows strictly with the rank.
* `nearestRank` goes the other way: the rank of the magnitude nearest to a fraction, with ties
  to the even rank. A fraction beyond the finite magnitudes goes to infinity.
* `==` compares as numbers: zero equals negative zero, and what is not a number equals nothing.
  Equality of the bits is `=`.
-/

set_option autoImplicit false

namespace Bytecode

/-- A number of the binary64 format, given by its bits. -/
structure Binary64 where
  /-- The sign bit, the exponent and the fraction, from the highest bit down. -/
  bits : UInt64
  deriving DecidableEq

namespace Binary64

/-- The sign bit alone, `2 ^ 63`. -/
def signBit : Nat := 0x8000000000000000

/-- The lowest bit of the exponent alone, `2 ^ 52`. The bits below it are the fraction. -/
def exponentBit : Nat := 0x10000000000000

/-- The rank of infinity, after all finite magnitudes: the exponent bits are all set, and no
bit of the fraction is. -/
def infinityRank : Nat := 0x7FF0000000000000

/-- The sign bit is set. -/
def isNegative (x : Binary64) : Bool := decide (signBit ≤ x.bits.toNat)

/-- The bits below the sign, as a number. -/
def rank (x : Binary64) : Nat := x.bits.toNat % signBit

/-- No number: neither finite nor infinite. -/
def isNaN (x : Binary64) : Bool := decide (infinityRank < x.rank)

/-- Infinite, of either sign. -/
def isInfinite (x : Binary64) : Bool := decide (x.rank = infinityRank)

/-- The number of the given sign and rank. -/
def ofRank (negative : Bool) (rank : Nat) : Binary64 :=
  ⟨UInt64.ofNat ((if negative then signBit else 0) + rank)⟩

/-! ### Magnitudes -/

/-- The binary places by which the magnitudes near a rank are spaced more widely than one unit.
Each step of the exponent field doubles the spacing, save the step from zero to one. -/
def scaleAt (rank : Nat) : Nat := rank / exponentBit - 1

/-- The digits of the magnitude of a rank as a whole number: the fraction, with a leading bit
before it unless the exponent field is zero. -/
def significandAt (rank : Nat) : Nat :=
  if rank < exponentBit then rank else exponentBit + rank % exponentBit

/-- The magnitude of a finite rank in units of `2 ^ -1074`. -/
def unitsAt (rank : Nat) : Nat := significandAt rank * twoPow (scaleAt rank)

/-- The magnitude of a finite number in units of `2 ^ -1074`. -/
def units (x : Binary64) : Nat := unitsAt x.rank

/-- The rank of the magnitude nearest to `num / den`, the even one of two that are equally
near.

With `scaled / den` the fraction in units, `shift` is how many binary places its integer part
has beyond the 53 that a magnitude can hold. There the magnitudes are `2 ^ shift` units apart,
and the rank of `m * 2 ^ shift` is `shift * 2 ^ 52 + m`. Rounding up to the next power of two
lands on the first rank of the next spacing by the same sum. -/
def nearestRank (num den : Nat) : Nat :=
  let scaled := num * twoPow 1074
  let shift := Nat.log2 (scaled / den) - 52
  min infinityRank (shift * exponentBit + roundHalfEven scaled (den * twoPow shift))

/-- The number of the given sign whose magnitude is nearest to a decimal. -/
def ofDecimal (negative : Bool) (d : Decimal) : Binary64 :=
  ofRank negative (nearestRank d.scaled (tenPow d.places))

/-- The number nearest to a natural number. -/
def ofNat (n : Nat) : Binary64 := ofDecimal false ⟨n, 0⟩

/-! ### Comparison as numbers -/

/-- Numbers are equal if they have the same bits or are both zero. What is not a number is
equal to nothing, not even to itself. -/
instance : BEq Binary64 where
  beq x y := !x.isNaN && (decide (x = y) || (decide (x.rank = 0) && decide (y.rank = 0)))

end Binary64

end Bytecode
