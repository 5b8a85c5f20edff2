import Mathlib.Data.Nat.Cast.Order.Field
import Mathlib.Tactic.Positivity
import Bytecode.Proofs.Binary64.Magnitude
import Bytecode.Proofs.Decimal.HalfEven

/-!
# `Bytecode.Proofs.Binary64.Rounding`: the nearest magnitude

`RoundsTo` says without any procedure what it means for a number to be rounded to a magnitude: none
is nearer, and if another one is as near then the rank is even. Infinity takes part with the
magnitude that the next power of two would have, so that a number goes there from half a step
beyond the greatest finite magnitude on.

* `RoundsTo.unique` and `RoundsTo.between`: a number is rounded to one magnitude, and the numbers
  that are rounded to a magnitude form an interval around it.
* `roundsTo_nearestRank`: the procedure `nearestRank` does just this. Its argument is about the
  binade that the number lies in, where the magnitudes are a grid (`nearest_of_grid`).
* `nearestRank_eq_iff` puts the two together.
-/

set_option autoImplicit false

namespace Bytecode.Binary64

/-- The number is rounded to the magnitude of the rank, to the nearest and with ties to even. -/
structure RoundsTo (q : ℚ) (rank : Nat) : Prop where
  le_infinityRank : rank ≤ infinityRank
  nearest : ∀ other ≤ infinityRank, |q - magnitudeAt rank| ≤ |q - magnitudeAt other|
  even : ∀ other ≤ infinityRank, other ≠ rank →
    |q - magnitudeAt rank| = |q - magnitudeAt other| → rank % 2 = 0

namespace RoundsTo

variable {q q' : ℚ} {rank other : Nat}

/-- A magnitude is rounded to itself. -/
theorem self (h : rank ≤ infinityRank) : RoundsTo (magnitudeAt rank) rank where
  le_infinityRank := h
  nearest other _ := by
    rw [sub_self, abs_zero]
    exact abs_nonneg _
  even other _ hne heq := by
    rw [sub_self, abs_zero, eq_comm, abs_eq_zero, sub_eq_zero] at heq
    exact absurd (magnitudeAt_strictMono.injective heq).symm hne

/-- A number is rounded to no two magnitudes. Of two that are equally near both would have to be
even, and then there is one between them that is nearer. -/
theorem unique (h : RoundsTo q rank) (h' : RoundsTo q other) : rank = other := by
  by_contra hne
  wlog hlt : rank < other generalizing rank other
  · exact this h' h (Ne.symm hne) (by omega)
  -- Each is as near as the other.
  have heq : |q - magnitudeAt rank| = |q - magnitudeAt other| :=
    le_antisymm (h.nearest other h'.le_infinityRank) (h'.nearest rank h.le_infinityRank)
  have heven := h.even other h'.le_infinityRank (Ne.symm hne) heq
  have heven' := h'.even rank h.le_infinityRank hne heq.symm
  have hinside : rank + 1 < other := by omega
  have hlow := magnitudeAt_strictMono (Nat.lt_succ_self rank)
  have hhigh := magnitudeAt_strictMono hinside
  have hnearest := h.nearest (rank + 1) (le_trans hinside.le h'.le_infinityRank)
  -- The number is halfway between the two, which is nearer to what lies between them.
  rcases abs_cases (q - magnitudeAt rank) with ⟨h₁, _⟩ | ⟨h₁, _⟩ <;>
    rcases abs_cases (q - magnitudeAt other) with ⟨h₂, _⟩ | ⟨h₂, _⟩ <;>
    rcases abs_cases (q - magnitudeAt (rank + 1)) with ⟨h₃, _⟩ | ⟨h₃, _⟩ <;>
    linarith

/-- Between a magnitude and a number that is rounded to it, all numbers are rounded to it. On the
way from the one to the other no magnitude can be met that is nearer. -/
theorem between (h : RoundsTo q rank)
    (hbetween : q ≤ q' ∧ q' ≤ magnitudeAt rank ∨ magnitudeAt rank ≤ q' ∧ q' ≤ q) :
    RoundsTo q' rank := by
  have hsplit : |q - magnitudeAt rank| = |q - q'| + |q' - magnitudeAt rank| := by
    rcases hbetween with ⟨hleft, hright⟩ | ⟨hleft, hright⟩
    · rw [abs_of_nonpos (by linarith), abs_of_nonpos (by linarith), abs_of_nonpos (by linarith)]
      ring
    · rw [abs_of_nonneg (by linarith), abs_of_nonneg (by linarith), abs_of_nonneg (by linarith)]
      ring
  -- A magnitude nearer to the second number would be nearer to the first one too.
  constructor
  case le_infinityRank => exact h.le_infinityRank
  case nearest =>
    intro other hother
    have hnearest := h.nearest other hother
    have htriangle := abs_sub_le q q' (magnitudeAt other)
    linarith
  case even =>
    intro other hother hne heq
    refine h.even other hother hne (le_antisymm (h.nearest other hother) ?_)
    have htriangle := abs_sub_le q q' (magnitudeAt other)
    linarith

end RoundsTo

/-! ### The procedure -/

section

variable {u : ℚ} {shift m : Nat}

/-- Around a number of the binade with the given shift, the magnitudes other than `m * 2 ^ shift`
are a whole step away from it, or on the far side of it from the number. -/
theorem far_of_grid (hlow : shift = 0 ∨ 2 ^ 52 * 2 ^ shift ≤ u) (hlow' : shift = 0 ∨ 2 ^ 52 ≤ m)
    (hhigh : m ≤ 2 ^ 53) {other : Nat} (hne : other ≠ shift * exponentBit + m) :
    (m : ℚ) * 2 ^ shift + 2 ^ shift ≤ unitsAt other
      ∨ (unitsAt other : ℚ) + 2 ^ shift ≤ m * 2 ^ shift
      ∨ (m : ℚ) * 2 ^ shift ≤ u ∧ (unitsAt other : ℚ) < m * 2 ^ shift := by
  have hunits := unitsAt_grid hlow' hhigh
  rcases Nat.lt_or_gt_of_ne hne with hbefore | hafter
  · rcases Nat.eq_zero_or_pos m with rfl | hpos
    · rcases hlow' with rfl | hle
      · omega
      · exact absurd hle (by norm_num)
    · by_cases hfirst : shift = 0 ∨ 2 ^ 52 ≤ m - 1
      · -- The magnitude before is on the grid too.
        have hunits' := unitsAt_grid hfirst (by omega)
        have hle : unitsAt other ≤ (m - 1) * 2 ^ shift := by
          rw [← hunits']
          exact unitsAt_strictMono.monotone (by omega)
        have hstep : (m - 1) * 2 ^ shift + 2 ^ shift = m * 2 ^ shift := by
          rw [← Nat.succ_mul, Nat.succ_eq_add_one, Nat.sub_add_cancel hpos]
        right; left
        exact_mod_cast (show unitsAt other + 2 ^ shift ≤ m * 2 ^ shift by omega)
      · -- The grid begins here, and the number is not before its beginning.
        obtain rfl : m = 2 ^ 52 := by omega
        have hlt : unitsAt other < 2 ^ 52 * 2 ^ shift := by
          rw [← hunits]
          exact unitsAt_strictMono hbefore
        right; right
        refine ⟨?_, by exact_mod_cast hlt⟩
        exact_mod_cast hlow.resolve_left (fun hzero => hfirst (Or.inl hzero))
  · -- From the end of the binade on the steps are no smaller.
    have hle := unitsAt_add_le hafter
    have hscale := Nat.pow_le_pow_right (show 0 < 2 by decide) (le_scaleAt_grid hlow')
    rw [hunits] at hle
    left
    exact_mod_cast (show m * 2 ^ shift + 2 ^ shift ≤ unitsAt other by omega)

/-- Rounding in a binade does not go below its beginning. -/
theorem binade_of_round (hlow : shift = 0 ∨ 2 ^ 52 * 2 ^ shift ≤ u)
    (hhalf : |u / 2 ^ shift - m| ≤ 1 / 2) : shift = 0 ∨ 2 ^ 52 ≤ m := by
  rcases hlow with hzero | hle
  · exact Or.inl hzero
  · right
    have hquotient : (2 : ℚ) ^ 52 ≤ u / 2 ^ shift := (le_div_iff₀ (by positivity)).mpr hle
    have hbelow := (abs_le.mp hhalf).2
    have hlt : (2 : ℚ) ^ 52 < m + 1 := by linarith
    have hlt' : 2 ^ 52 < m + 1 := by exact_mod_cast hlt
    omega

/-- No other magnitude is nearer than half a step, unless it is further away than the point of the
grid in any case. -/
theorem away_of_grid (hlow : shift = 0 ∨ 2 ^ 52 * 2 ^ shift ≤ u) (hlow' : shift = 0 ∨ 2 ^ 52 ≤ m)
    (hhigh : m ≤ 2 ^ 53) (hhalf : |u - m * 2 ^ shift| ≤ 1 / 2 * 2 ^ shift) {other : Nat}
    (hne : other ≠ shift * exponentBit + m) :
    |u - m * 2 ^ shift| < |u - unitsAt other| ∨ 1 / 2 * 2 ^ shift ≤ |u - unitsAt other| := by
  have hstep : (0 : ℚ) < 2 ^ shift := by positivity
  obtain ⟨hbelow, habove⟩ := abs_le.mp hhalf
  rcases far_of_grid hlow hlow' hhigh hne with hafter | hbefore | ⟨hside, hbefore⟩
  · right
    rw [abs_of_nonpos (by linarith)]
    linarith
  · right
    rw [abs_of_nonneg (by linarith)]
    linarith
  · left
    rw [abs_of_nonneg (by linarith), abs_of_nonneg (by linarith)]
    linarith

/-- In the binade of a number, the nearest integer on the grid gives the nearest magnitude. -/
theorem nearest_of_grid (hlow : shift = 0 ∨ 2 ^ 52 * 2 ^ shift ≤ u) (hhigh : m ≤ 2 ^ 53)
    (hhalf : |u / 2 ^ shift - m| ≤ 1 / 2) (htie : |u / 2 ^ shift - m| = 1 / 2 → m % 2 = 0)
    {other : Nat} (hne : other ≠ shift * exponentBit + m) :
    |u - unitsAt (shift * exponentBit + m)| ≤ |u - unitsAt other|
      ∧ (|u - unitsAt (shift * exponentBit + m)| = |u - unitsAt other| →
        (shift * exponentBit + m) % 2 = 0) := by
  have hstep : (0 : ℚ) < 2 ^ shift := by positivity
  have hlow' := binade_of_round hlow hhalf
  have hparity : (shift * exponentBit + m) % 2 = m % 2 := by
    rw [exponentBit_eq]
    omega
  have hunits : (unitsAt (shift * exponentBit + m) : ℚ) = m * 2 ^ shift := by
    exact_mod_cast unitsAt_grid hlow' hhigh
  have hdistance : |u - m * 2 ^ shift| = |u / 2 ^ shift - m| * 2 ^ shift := by
    rw [← abs_of_pos hstep, ← abs_mul, abs_of_pos hstep, sub_mul, div_mul_cancel₀ _ hstep.ne']
  have hle : |u - m * 2 ^ shift| ≤ 1 / 2 * 2 ^ shift := by
    rw [hdistance]
    exact mul_le_mul_of_nonneg_right hhalf hstep.le
  have haway := away_of_grid hlow hlow' hhigh hle hne
  rw [hunits, hparity]
  constructor
  · rcases haway with hlt | hfar
    · exact hlt.le
    · exact hle.trans hfar
  · intro heq
    rcases haway with hlt | hfar
    · exact absurd heq hlt.ne
    · -- As near as another one is only what is half a step away.
      apply htie
      apply mul_right_cancel₀ hstep.ne'
      rw [← hdistance]
      exact le_antisymm hle (by rw [heq]; exact hfar)

end

/-- Where all ranks are compared and not only those up to infinity, a nearest rank that lies
beyond infinity stands for infinity. -/
theorem roundsTo_min {q : ℚ} {rank : Nat}
    (hnearest : ∀ other, other ≠ rank →
      |q * 2 ^ 1074 - unitsAt rank| ≤ |q * 2 ^ 1074 - unitsAt other|
        ∧ (|q * 2 ^ 1074 - unitsAt rank| = |q * 2 ^ 1074 - unitsAt other| → rank % 2 = 0)) :
    RoundsTo q (min infinityRank rank) := by
  have hunit : (0 : ℚ) < 2 ^ 1074 := by positivity
  rcases Nat.lt_or_ge infinityRank rank with hlt | hle
  · -- No tie is to be decided here: the rank of infinity is even.
    rw [Nat.min_eq_left hlt.le]
    refine ⟨le_refl _, fun other hother => ?_, fun _ _ _ _ => by decide⟩
    have hnearest' := (hnearest infinityRank hlt.ne).1
    have hrank : (unitsAt infinityRank : ℚ) < unitsAt rank := by
      exact_mod_cast unitsAt_strictMono hlt
    have hother' : (unitsAt other : ℚ) ≤ unitsAt infinityRank := by
      exact_mod_cast unitsAt_strictMono.monotone hother
    rw [abs_sub_magnitudeAt, abs_sub_magnitudeAt, div_le_div_iff_of_pos_right hunit]
    generalize q * 2 ^ 1074 = u at hnearest' ⊢
    -- The number is beyond infinity, and the other ranks are on the near side of it.
    have hbeyond : (unitsAt infinityRank : ℚ) ≤ u := by
      by_contra hlt'
      rw [abs_of_nonpos (by linarith), abs_of_nonpos (by linarith)] at hnearest'
      linarith
    rw [abs_of_nonneg (by linarith), abs_of_nonneg (by linarith)]
    linarith
  · rw [Nat.min_eq_right hle]
    refine ⟨hle, fun other _ => ?_, fun other _ hne heq => ?_⟩
    · by_cases hsame : other = rank
      · rw [hsame]
      · rw [abs_sub_magnitudeAt, abs_sub_magnitudeAt, div_le_div_iff_of_pos_right hunit]
        exact (hnearest other hsame).1
    · rw [abs_sub_magnitudeAt, abs_sub_magnitudeAt, div_left_inj' hunit.ne'] at heq
      exact (hnearest other hne).2 heq

/-- A fraction is rounded to its nearest rank. -/
theorem roundsTo_nearestRank (num : Nat) {den : Nat} (hden : 0 < den) :
    RoundsTo (num / den) (nearestRank num den) := by
  have hden' : (0 : ℚ) < den := by exact_mod_cast hden
  unfold nearestRank
  simp only [twoPow_eq]
  -- In units the fraction is `scaled / den`, and its grid has the spacing `2 ^ shift`.
  refine roundsTo_min fun other hne => ?_
  have hscaled : (num / den * 2 ^ 1074 : ℚ) = (num * 2 ^ 1074 : Nat) / (den : ℚ) := by
    rw [Nat.cast_mul, Nat.cast_pow, Nat.cast_ofNat, div_mul_eq_mul_div]
  rw [hscaled]
  generalize num * 2 ^ 1074 = scaled at hne ⊢
  obtain ⟨shift, hshift⟩ : ∃ shift, Nat.log2 (scaled / den) - 52 = shift := ⟨_, rfl⟩
  rw [hshift] at hne ⊢
  have hstep : 0 < 2 ^ shift := Nat.two_pow_pos shift
  have hfloor : ((scaled / den : Nat) : ℚ) ≤ scaled / den := Nat.cast_div_le
  have hquotient : (scaled / den / 2 ^ shift : ℚ) = scaled / (den * 2 ^ shift : Nat) := by
    push_cast
    rw [div_div]
  have hround := abs_sub_roundHalfEven scaled (Nat.mul_pos hden hstep)
  rw [← hquotient] at hround
  apply nearest_of_grid _ _ hround.1 hround.2 hne
  · -- The leading bit of the integer part is what the shift was taken from.
    rcases Nat.eq_zero_or_pos shift with hzero | hpos
    · exact Or.inl hzero
    · right
      have hlog : Nat.log2 (scaled / den) = 52 + shift := by omega
      have hne' : scaled / den ≠ 0 := by
        intro hzero
        rw [hzero, Nat.log2_zero] at hlog
        omega
      have hle := Nat.log2_self_le hne'
      rw [hlog, pow_add] at hle
      have hle' : (2 ^ 52 * 2 ^ shift : ℚ) ≤ (scaled / den : Nat) := by exact_mod_cast hle
      exact hle'.trans hfloor
  · -- No bit is before the leading one, so that rounding ends in the binade or right after it.
    have hlt : scaled / den < 2 ^ 53 * 2 ^ shift := by
      rw [← pow_add]
      exact lt_of_lt_of_le Nat.lt_log2_self (Nat.pow_le_pow_right (by decide) (by omega))
    have hlt' : scaled / (den * 2 ^ shift) < 2 ^ 53 := by
      rw [← Nat.div_div_eq_div_mul]
      exact Nat.div_lt_of_lt_mul (by rwa [Nat.mul_comm])
    exact (roundHalfEven_le_div_succ _ _).trans hlt'

/-- The nearest rank of a fraction is the one that the fraction is rounded to. -/
theorem nearestRank_eq_iff {num den rank : Nat} (hden : 0 < den) :
    nearestRank num den = rank ↔ RoundsTo (num / den) rank := by
  constructor
  · intro h
    rw [← h]
    exact roundsTo_nearestRank num hden
  · exact fun h => (roundsTo_nearestRank num hden).unique h

end Bytecode.Binary64
