import Mathlib.Algebra.Order.Field.Rat
import Mathlib.Data.List.TakeWhile
import Mathlib.Data.Nat.Digits.Lemmas
import Bytecode.Decimal

/-!
# `Bytecode.Proofs.Decimal.Significant`: what a decimal is worth and how many digits it takes

The value of a decimal is a rational number. How many digits it takes to write the value depends
on where the zeros at its two ends are left out: the significant digits are those from the first
to the last that is not zero (`significantDigits`). Scaling by a power of ten does not change
their number (`significantDigits_mul_pow`), so a decimal has at most `k` of them if it is a number
below `10 ^ k`, scaled (`significantDigits_le_iff`).

Dropping the zeros at the end of a fraction keeps the value and the significant digits
(`Decimal.value_ofScaled`, `Decimal.significant_ofScaled`).
-/

set_option autoImplicit false

namespace Bytecode

/-- The power as it is written elsewhere. -/
theorem tenPow_eq (n : Nat) : tenPow n = 10 ^ n := rfl

/-! ### Significant digits -/

/-- How many decimal digits a natural number has from the first to the last that is not zero. The
digits are listed from the last one on. Zero has none. -/
def significantDigits (n : Nat) : Nat := ((Nat.digits 10 n).dropWhile (· == 0)).length

/-- Zeros after the last digit do not count. -/
theorem significantDigits_mul_pow (n k : Nat) :
    significantDigits (n * 10 ^ k) = significantDigits n := by
  rcases Nat.eq_zero_or_pos n with rfl | hpos
  · rw [Nat.zero_mul]
  · unfold significantDigits
    rw [Nat.mul_comm, Nat.digits_base_pow_mul (by decide) hpos, List.dropWhile_append_of_pos]
    intro digit hdigit
    rw [List.eq_of_mem_replicate hdigit]
    rfl

/-- The numbers with at most `k` significant digits are those below `10 ^ k` with zeros after
them. -/
theorem significantDigits_le_iff (n k : Nat) :
    significantDigits n ≤ k ↔ ∃ m j, n = m * 10 ^ j ∧ m < 10 ^ k := by
  constructor
  · intro h
    -- The zeros are a power of ten, and the other digits are the number that it multiplies.
    let zeros := (Nat.digits 10 n).takeWhile (· == 0)
    let rest := (Nat.digits 10 n).dropWhile (· == 0)
    have hdigits : Nat.digits 10 n = zeros ++ rest := List.takeWhile_append_dropWhile.symm
    have hzeros : zeros = List.replicate zeros.length 0 :=
      List.eq_replicate_of_mem fun digit hdigit => by simpa using List.mem_takeWhile_imp hdigit
    have hrest : ∀ digit ∈ rest, digit < 10 := fun digit hdigit =>
      Nat.digits_lt_base (by decide) ((List.dropWhile_suffix _).subset hdigit)
    refine ⟨Nat.ofDigits 10 rest, zeros.length, ?_, ?_⟩
    · have hvalue := Nat.ofDigits_digits 10 n
      rw [hdigits, Nat.ofDigits_append, hzeros, Nat.ofDigits_replicate_zero, ← hzeros] at hvalue
      rw [← hvalue, Nat.zero_add, Nat.mul_comm]
    · exact lt_of_lt_of_le (Nat.ofDigits_lt_base_pow_length (by decide) hrest)
        (Nat.pow_le_pow_right (by decide) h)
  · -- The zeros do not count, and the number before them has no more than `k` digits at all.
    rintro ⟨m, j, rfl, hlt⟩
    rw [significantDigits_mul_pow]
    exact (List.length_dropWhile_le _ _).trans ((Nat.digits_length_le_iff (by decide) m).mpr hlt)

/-! ### Decimals -/

namespace Decimal

/-- The number that a decimal stands for. -/
def value (d : Decimal) : ℚ := d.scaled / 10 ^ d.places

/-- How many significant digits a decimal has. -/
def significant (d : Decimal) : Nat := significantDigits d.scaled

/-- A zero at the end of a fraction is worth nothing. -/
theorem value_ofScaled (scaled places : Nat) :
    (ofScaled scaled places).value = scaled / 10 ^ places := by
  fun_induction ofScaled scaled places with
  | case1 scaled => rfl
  | case2 scaled places hzero ih =>
    -- The last digit is zero, so that ten divides what it is dropped from.
    have hscaled : (scaled : ℚ) = (scaled / 10 : Nat) * 10 := by
      exact_mod_cast (Nat.div_mul_cancel (Nat.dvd_of_mod_eq_zero hzero)).symm
    rw [ih, hscaled, Nat.succ_eq_add_one, pow_succ, mul_div_mul_right _ _ (by norm_num)]
  | case3 scaled places hnonzero => rfl

/-- A zero at the end of a fraction is no significant digit. -/
theorem significant_ofScaled (scaled places : Nat) :
    (ofScaled scaled places).significant = significantDigits scaled := by
  fun_induction ofScaled scaled places with
  | case1 scaled => rfl
  | case2 scaled places hzero ih =>
    rw [ih, ← significantDigits_mul_pow (scaled / 10) 1, Nat.pow_one,
      Nat.div_mul_cancel (Nat.dvd_of_mod_eq_zero hzero)]
  | case3 scaled places hnonzero => rfl

end Decimal

end Bytecode
