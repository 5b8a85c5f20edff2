import Mathlib.Algebra.Order.Field.Rat
import Mathlib.Order.Monotone.Basic
import Mathlib.Tactic.Linarith
import Mathlib.Tactic.Positivity
import Mathlib.Tactic.Ring
import Bytecode.Binary64.Basic

/-!
# `Bytecode.Proofs.Binary64.Magnitude`: the magnitudes in their order

The ranks count the magnitudes upwards, so a greater rank has a greater magnitude
(`unitsAt_strictMono`). From one rank to the next it is `2 ^ scaleAt` units (`unitsAt_succ`): the
same distance throughout a binade, and twice that in the next one. A rank past the end of a
binade continues it, which is why `unitsAt_grid` covers both ends of one.

`magnitudeAt` is the magnitude as the rational number that it is. The formula goes on beyond the
finite ranks, where it gives infinity the magnitude that the next power of two would have. That is
the number that rounding compares with to decide what overflows.
-/

set_option autoImplicit false

namespace Bytecode

/-- The power as it is written elsewhere. -/
theorem twoPow_eq (n : Nat) : twoPow n = 2 ^ n := rfl

namespace Binary64

/-- The exponent field starts at bit 52. -/
theorem exponentBit_eq : exponentBit = 4503599627370496 := by decide

/-- From a rank to the next it is as far as the scale says. -/
theorem unitsAt_succ (rank : Nat) : unitsAt (rank + 1) = unitsAt rank + 2 ^ scaleAt rank := by
  unfold unitsAt significandAt scaleAt
  simp only [twoPow_eq, exponentBit_eq]
  by_cases hsub : rank + 1 < 4503599627370496
  · -- Both ranks are below the first binade, where the spacing is one unit.
    have hscale : rank / 4503599627370496 - 1 = 0 := by omega
    have hscale' : (rank + 1) / 4503599627370496 - 1 = 0 := by omega
    rw [if_pos hsub, if_pos (by omega), hscale, hscale']
    omega
  · rw [if_neg hsub]
    by_cases hfirst : rank < 4503599627370496
    · -- The step into the first binade, which has the same spacing.
      have hscale : rank / 4503599627370496 - 1 = 0 := by omega
      have hscale' : (rank + 1) / 4503599627370496 - 1 = 0 := by omega
      rw [if_pos hfirst, hscale, hscale']
      omega
    · rw [if_neg hfirst]
      by_cases hlast : rank % 4503599627370496 = 4503599627370495
      · -- The step to the next binade: the fraction starts anew, and the spacing doubles.
        have hscale : (rank + 1) / 4503599627370496 - 1 = rank / 4503599627370496 - 1 + 1 := by
          omega
        have hfraction : (rank + 1) % 4503599627370496 = 0 := by omega
        rw [hscale, hfraction, hlast, Nat.pow_succ]
        omega
      · -- The step within a binade: the fraction goes up by one.
        have hscale : (rank + 1) / 4503599627370496 - 1 = rank / 4503599627370496 - 1 := by omega
        have hfraction : (rank + 1) % 4503599627370496 = rank % 4503599627370496 + 1 := by omega
        rw [hscale, hfraction]
        ring

/-- A greater rank has a greater magnitude. -/
theorem unitsAt_strictMono : StrictMono unitsAt := by
  refine strictMono_nat_of_lt_succ fun rank => ?_
  have := Nat.two_pow_pos (scaleAt rank)
  rw [unitsAt_succ]
  omega

/-- The binade whose magnitudes are `2 ^ shift` units apart, with the first rank after it. Without
a shift it begins at zero. -/
theorem unitsAt_grid {shift m : Nat} (hlow : shift = 0 ∨ 2 ^ 52 ≤ m) (hhigh : m ≤ 2 ^ 53) :
    unitsAt (shift * exponentBit + m) = m * 2 ^ shift := by
  have hhigh' : m ≤ 9007199254740992 := hhigh
  have hlow' : shift = 0 ∨ 4503599627370496 ≤ m := hlow
  unfold unitsAt significandAt scaleAt
  simp only [twoPow_eq, exponentBit_eq]
  by_cases hsub : shift * 4503599627370496 + m < 4503599627370496
  · -- Below the first binade the units count the ranks.
    obtain rfl : shift = 0 := by omega
    have hscale : (0 * 4503599627370496 + m) / 4503599627370496 - 1 = 0 := by omega
    rw [if_pos hsub, hscale]
    omega
  · rw [if_neg hsub]
    by_cases hend : m = 9007199254740992
    · -- The first rank after the binade.
      have hscale : (shift * 4503599627370496 + m) / 4503599627370496 - 1 = shift + 1 := by omega
      have hfraction : (shift * 4503599627370496 + m) % 4503599627370496 = 0 := by omega
      rw [hscale, hfraction, hend, Nat.pow_succ]
      ring
    · -- Within the binade the leading bit of `m` is the last one of the exponent field.
      have hscale : (shift * 4503599627370496 + m) / 4503599627370496 - 1 = shift := by omega
      have hfraction :
          4503599627370496 + (shift * 4503599627370496 + m) % 4503599627370496 = m := by
        omega
      rw [hscale, hfraction]

/-- Throughout a binade and at the first rank after it the spacing is no less than in the
binade. -/
theorem le_scaleAt_grid {shift m : Nat} (hlow : shift = 0 ∨ 2 ^ 52 ≤ m) :
    shift ≤ scaleAt (shift * exponentBit + m) := by
  unfold scaleAt
  rw [exponentBit_eq]
  omega

/-- A rank beyond another lies further away than the spacing at the nearer one. -/
theorem unitsAt_add_le {rank other : Nat} (h : rank < other) :
    unitsAt rank + 2 ^ scaleAt rank ≤ unitsAt other := by
  rw [← unitsAt_succ]
  exact unitsAt_strictMono.monotone h

/-! ### Magnitudes as rational numbers -/

/-- The distance from a fraction, in units of its denominator. -/
theorem abs_sub_div_eq (q a : ℚ) {unit : ℚ} (hunit : 0 < unit) :
    |q - a / unit| = |q * unit - a| / unit := by
  rw [← abs_of_pos hunit, ← abs_div, abs_of_pos hunit, sub_div, mul_div_cancel_right₀ _ hunit.ne']

/-- The magnitude of a rank. -/
def magnitudeAt (rank : Nat) : ℚ := unitsAt rank / 2 ^ 1074

/-- The distance from a magnitude, in units. -/
theorem abs_sub_magnitudeAt (q : ℚ) (rank : Nat) :
    |q - magnitudeAt rank| = |q * 2 ^ 1074 - unitsAt rank| / 2 ^ 1074 :=
  abs_sub_div_eq q (unitsAt rank) (by positivity)

/-- The magnitude of a finite number. -/
def magnitude (x : Binary64) : ℚ := magnitudeAt x.rank

/-- The first magnitude is zero. -/
theorem magnitudeAt_zero : magnitudeAt 0 = 0 := by
  have hunits : unitsAt 0 = 0 := by
    unfold unitsAt significandAt
    rw [if_pos (by decide), Nat.zero_mul]
  unfold magnitudeAt
  rw [hunits, Nat.cast_zero, zero_div]

/-- A greater rank has a greater magnitude. -/
theorem magnitudeAt_strictMono : StrictMono magnitudeAt := by
  intro rank other h
  have hunits : (unitsAt rank : ℚ) < unitsAt other := by exact_mod_cast unitsAt_strictMono h
  exact div_lt_div_of_pos_right hunits (by positivity)

end Binary64

end Bytecode
