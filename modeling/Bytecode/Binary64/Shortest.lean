import Bytecode.Binary64.Basic

/-!
# `Bytecode.Binary64.Shortest`: decimal expansions of a number

Two decimals stand for a finite magnitude:

* `shortest` is the decimal with the fewest significant digits that reads back as the same
  magnitude, and of those the nearest. Of two that are equally near it is the greater.
* `rounded` is the magnitude rounded to a given number of places, half to even.

The search for the shortest goes over ever finer decimal grids. On each grid only the two
neighbours of the exact value are tried: the decimals that read back as a magnitude form an
interval around it, so if any point of a grid is in it, then one of the two neighbours is. The
finest grid holds the exact value itself, so the search never comes back empty.
-/

set_option autoImplicit false

namespace Bytecode.Binary64

/-- The decimal places it takes to write the magnitude of `x` in full: every halving below one
takes one more. -/
def fullPlaces (x : Binary64) : Nat := 1074 - scaleAt x.rank

/-- The magnitude of a finite number in units of its last place, written in full. The division
leaves no remainder. -/
def fullScaled (x : Binary64) : Nat := x.units * tenPow x.fullPlaces / twoPow 1074

/-- The decimal `scaled / 10 ^ fullPlaces` reads back as the magnitude of `x`. -/
def readsBack (x : Binary64) (scaled : Nat) : Bool :=
  decide (nearestRank scaled (tenPow x.fullPlaces) = x.rank)

/-- The multiple of `10 ^ k`, for the greatest `k` up to the given one, that is accepted and next
to the target. The target itself is taken without a question. -/
def coarsest (accepts : Nat → Bool) (target : Nat) : Nat → Nat
  | 0 => target
  | k + 1 =>
      let step := tenPow (k + 1)
      let below := target / step * step
      let above := below + step
      match accepts below, accepts above with
      | true, true => if target - below < above - target then below else above
      | true, false => below
      | false, true => above
      | false, false => coarsest accepts target k

/-- The decimal with the fewest significant digits that reads back as the magnitude of `x`, and
the nearest to it of those. The first grid tried has the spacing of the leading digit. -/
def shortest (x : Binary64) : Decimal :=
  Decimal.ofScaled (coarsest x.readsBack x.fullScaled ((numeral x.fullScaled).length - 1))
    x.fullPlaces

/-- The magnitude of `x` rounded to the given number of decimal places, half to even. -/
def rounded (x : Binary64) (places : Nat) : Decimal :=
  ⟨roundHalfEven (x.units * tenPow places) (twoPow 1074), places⟩

end Bytecode.Binary64
