import Bytecode.Power
import Bytecode.Text.Format

/-!
# `Bytecode.Decimal`: finite decimals

A `Decimal` is a natural number of units in its last place, so every finite decimal that is not
negative is one. It is written positionally, with no exponent, and with as many digits after
the point as it has places; a decimal without places has no point.

`Decimal.ofScaled` drops the zeros at the end of the fraction, which changes the places and not
the value. `roundHalfEven` is the one rounding of quotients that the library knows.
-/

set_option autoImplicit false

namespace Bytecode

/-- The integer nearest to `num / den`. Halfway between two integers it is the even one. -/
def roundHalfEven (num den : Nat) : Nat :=
  let quotient := num / den
  let remainder := num % den
  if 2 * remainder < den then quotient
  else if den < 2 * remainder then quotient + 1
  else quotient + quotient % 2

/-- The decimal `scaled / 10 ^ places`, which is written with `places` digits after the point. -/
structure Decimal where
  scaled : Nat
  places : Nat
  deriving DecidableEq

namespace Decimal

/-- The digits after the point, one for each place. -/
def fraction (d : Decimal) : Text :=
  (numeral (d.scaled % tenPow d.places)).leftpad d.places '0'

/-- Zeros in front bring the digits after the point up to the number of places. -/
theorem length_fraction (d : Decimal) :
    d.fraction.length = max d.places (numeral (d.scaled % tenPow d.places)).length :=
  List.length_leftpad

/-- The decimal written out: its integer part and, if it has places, a point and the digits
after it. -/
def text (d : Decimal) : Text :=
  numeral (d.scaled / tenPow d.places) ++ (if d.places = 0 then [] else '.' :: d.fraction)

/-- The decimal `scaled / 10 ^ places` with the fewest places. -/
def ofScaled (scaled : Nat) : Nat → Decimal
  | 0 => ⟨scaled, 0⟩
  | places + 1 => if scaled % 10 = 0 then ofScaled (scaled / 10) places else ⟨scaled, places + 1⟩

end Decimal

end Bytecode
