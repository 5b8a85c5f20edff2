import Bytecode.Proofs.Binary64.Coarsest
import Bytecode.Proofs.Binary64.Rounding
import Bytecode.Proofs.Decimal.Reading

/-!
# `Bytecode.Proofs.Binary64.Shortest`: the shortest decimal that reads back

The magnitude of a number has finitely many decimal places (`fullScaled_div`), and on the grid with
these places the decimals that read back form an interval around it (`surrounds_readsBack`). So the
search finds the coarsest grid with such a decimal, and the nearest one there.

A decimal may have more places than the magnitude. But if it reads back with no more significant
digits than the magnitude has in full, then on the grid of that many digits a decimal reads back
that is as near (`competitor`): the given one itself, or the power of ten at the leading digit of
the magnitude.

`isShortest_shortest` puts the two together. No decimal that reads back has fewer significant
digits than `shortest`, and none with as many is nearer.
-/

set_option autoImplicit false

namespace Bytecode.Binary64

/-- The decimal is rounded to the magnitude of the number. No other one that is takes fewer
significant digits, and none that takes as many is nearer. -/
structure IsShortest (x : Binary64) (d : Decimal) : Prop where
  roundsTo : RoundsTo d.value x.rank
  fewest : ∀ d' : Decimal, RoundsTo d'.value x.rank → d.significant ≤ d'.significant
  nearest : ∀ d' : Decimal, RoundsTo d'.value x.rank → d'.significant = d.significant →
    |d.value - x.magnitude| ≤ |d'.value - x.magnitude|

variable {x : Binary64}

/-! ### The magnitude in full -/

/-- Written in full, a magnitude is exact: for each halving there is a factor of ten. -/
theorem fullScaled_mul (x : Binary64) :
    x.fullScaled * 2 ^ 1074 = x.units * 10 ^ x.fullPlaces := by
  have hdvd : 2 ^ 1074 ∣ x.units * 10 ^ x.fullPlaces := by
    have hplaces : 1074 ≤ scaleAt x.rank + x.fullPlaces := by
      unfold fullPlaces
      omega
    calc 2 ^ 1074 ∣ 2 ^ (scaleAt x.rank + x.fullPlaces) := pow_dvd_pow 2 hplaces
      _ = 2 ^ scaleAt x.rank * 2 ^ x.fullPlaces := pow_add _ _ _
      _ ∣ x.units * 10 ^ x.fullPlaces :=
        mul_dvd_mul (Dvd.intro_left _ rfl) (pow_dvd_pow_of_dvd (by decide) _)
  unfold fullScaled
  rw [twoPow_eq, tenPow_eq]
  exact Nat.div_mul_cancel hdvd

/-- The full decimal is the magnitude. -/
theorem fullScaled_div (x : Binary64) :
    (x.fullScaled : ℚ) / 10 ^ x.fullPlaces = x.magnitude := by
  have hmul : (x.fullScaled : ℚ) * 2 ^ 1074 = x.units * 10 ^ x.fullPlaces := by
    rw [← Nat.cast_ofNat (n := 2), ← Nat.cast_ofNat (n := 10), ← Nat.cast_pow, ← Nat.cast_pow,
      ← Nat.cast_mul, ← Nat.cast_mul, fullScaled_mul]
  exact (div_eq_div_iff (by positivity) (by positivity)).mpr hmul

/-- The distance from the magnitude, in units of its last place. -/
theorem abs_sub_magnitude (q : ℚ) (x : Binary64) :
    |q - x.magnitude| = |q * 10 ^ x.fullPlaces - x.fullScaled| / 10 ^ x.fullPlaces := by
  rw [← fullScaled_div]
  exact abs_sub_div_eq q x.fullScaled (by positivity)

/-- The full decimal of zero, and of nothing else, is zero. -/
theorem fullScaled_eq_zero_iff : x.fullScaled = 0 ↔ x.rank = 0 := by
  have hunit : (10 : ℚ) ^ x.fullPlaces ≠ 0 := by positivity
  have hmagnitude : x.magnitude = 0 ↔ x.rank = 0 := by
    rw [← magnitudeAt_zero]
    exact magnitudeAt_strictMono.injective.eq_iff
  rw [← hmagnitude, ← fullScaled_div, div_eq_zero_iff, or_iff_left hunit, Nat.cast_eq_zero]

/-! ### Reading back -/

/-- Reading back is being rounded to the magnitude. -/
theorem readsBack_iff {n : Nat} :
    x.readsBack n = true ↔ RoundsTo (n / 10 ^ x.fullPlaces) x.rank := by
  have hpos : 0 < tenPow x.fullPlaces := Nat.pow_pos (by decide)
  unfold readsBack
  rw [decide_eq_true_iff, nearestRank_eq_iff hpos, tenPow_eq, Nat.cast_pow, Nat.cast_ofNat]

/-- What is between the magnitude and a number that is rounded to it reads back. -/
theorem readsBack_of_between {q : ℚ} {n : Nat} (h : RoundsTo q x.rank)
    (hbetween : q * 10 ^ x.fullPlaces ≤ n ∧ n ≤ x.fullScaled
      ∨ x.fullScaled ≤ n ∧ n ≤ q * 10 ^ x.fullPlaces) :
    x.readsBack n = true := by
  have hunit : (0 : ℚ) < 10 ^ x.fullPlaces := by positivity
  have hmagnitude : magnitudeAt x.rank = x.fullScaled / 10 ^ x.fullPlaces :=
    (fullScaled_div x).symm
  rw [readsBack_iff]
  apply h.between
  rw [hmagnitude, div_le_div_iff_of_pos_right hunit, div_le_div_iff_of_pos_right hunit,
    le_div_iff₀ hunit, div_le_iff₀ hunit]
  exact_mod_cast hbetween

/-- The magnitude reads back, and what reads back is an interval around it. -/
theorem surrounds_readsBack (hrank : x.rank ≤ infinityRank) :
    Surrounds x.readsBack x.fullScaled where
  accepted := by
    rw [readsBack_iff, fullScaled_div]
    exact RoundsTo.self hrank
  between n n' hn hbetween := by
    apply readsBack_of_between (readsBack_iff.mp hn)
    rw [div_mul_cancel₀ _ (by positivity)]
    exact_mod_cast hbetween

/-! ### Other decimals -/

/-- Distances as rational numbers. -/
theorem cast_distance (target n : Nat) : (distance target n : ℚ) = |(n : ℚ) - target| := by
  unfold distance
  rw [Nat.cast_natAbs, Int.cast_abs, Int.cast_sub, Int.cast_natCast, Int.cast_natCast]

/-- A decimal without significant digits is not rounded to anything but zero. -/
theorem significant_pos {d : Decimal} (hnonzero : x.rank ≠ 0) (hround : RoundsTo d.value x.rank) :
    0 < d.significant := by
  by_contra hnone
  obtain ⟨m, j, hscaled, hm⟩ :=
    (significantDigits_le_iff d.scaled 0).mp (Nat.le_of_not_lt hnone)
  have hvalue : d.value = magnitudeAt 0 := by
    rw [Nat.pow_zero, Nat.lt_one_iff] at hm
    unfold Decimal.value
    rw [magnitudeAt_zero, hscaled, hm, Nat.zero_mul, Nat.cast_zero, zero_div]
  rw [hvalue] at hround
  exact hnonzero (hround.unique (RoundsTo.self (Nat.zero_le _)))

/-- A decimal that reads back with some number of digits, no more than the magnitude has, can be
replaced by one on the grid of that many digits that is as near. -/
theorem competitor {d : Decimal} {len : Nat} (hlow : 10 ^ (len - 1) ≤ x.fullScaled)
    (hround : RoundsTo d.value x.rank) (hpos : 0 < d.significant) (hlen : d.significant ≤ len) :
    ∃ other, 10 ^ (len - d.significant) ∣ other ∧ x.readsBack other = true
      ∧ (distance x.fullScaled other : ℚ) ≤ |d.value * 10 ^ x.fullPlaces - x.fullScaled| := by
  obtain ⟨m, j, hscaled, hm⟩ :=
    (significantDigits_le_iff d.scaled d.significant).mp (Nat.le_refl _)
  have hunit : (0 : ℚ) < 10 ^ d.places := by positivity
  -- On the grid with the places of the magnitude, the digits stand for `m` and zeros after it.
  have hvalue : d.value * 10 ^ x.fullPlaces * 10 ^ d.places
      = (m * 10 ^ (j + x.fullPlaces) : Nat) := by
    unfold Decimal.value
    rw [mul_right_comm, div_mul_cancel₀ _ hunit.ne', hscaled]
    push_cast
    ring
  by_cases hgrid : d.places + (len - d.significant) ≤ j + x.fullPlaces
  · -- The decimal is on the grid.
    have hsplit : j + x.fullPlaces = j + x.fullPlaces - d.places + d.places := by omega
    have hother : ((m * 10 ^ (j + x.fullPlaces - d.places) : Nat) : ℚ)
        = d.value * 10 ^ x.fullPlaces := by
      apply mul_right_cancel₀ hunit.ne'
      rw [hvalue, hsplit, Nat.add_sub_cancel]
      push_cast
      ring
    refine ⟨m * 10 ^ (j + x.fullPlaces - d.places),
      dvd_mul_of_dvd_right (pow_dvd_pow 10 (by omega)) m, ?_, ?_⟩
    · rw [readsBack_iff, hother, mul_div_cancel_right₀ _ (by positivity)]
      exact hround
    · rw [cast_distance, hother]
  · -- It is too fine for the grid, and so it is too small to have the leading digit.
    have hsmall : d.value * 10 ^ x.fullPlaces ≤ (10 ^ (len - 1) : Nat) := by
      have hle : m * 10 ^ (j + x.fullPlaces) ≤ 10 ^ (len - 1) * 10 ^ d.places :=
        calc m * 10 ^ (j + x.fullPlaces) ≤ 10 ^ d.significant * 10 ^ (j + x.fullPlaces) :=
              Nat.mul_le_mul_right _ hm.le
          _ = 10 ^ (d.significant + (j + x.fullPlaces)) := (pow_add _ _ _).symm
          _ ≤ 10 ^ (len - 1 + d.places) := Nat.pow_le_pow_right (by decide) (by omega)
          _ = 10 ^ (len - 1) * 10 ^ d.places := pow_add _ _ _
      apply le_of_mul_le_mul_right _ hunit
      rw [hvalue]
      exact_mod_cast hle
    have hlow' : ((10 ^ (len - 1) : Nat) : ℚ) ≤ x.fullScaled := by exact_mod_cast hlow
    refine ⟨10 ^ (len - 1), pow_dvd_pow 10 (by omega),
      readsBack_of_between hround (Or.inl ⟨hsmall, hlow⟩), ?_⟩
    rw [cast_distance, abs_of_nonpos (by linarith), abs_of_nonpos (by linarith)]
    linarith

/-- What the search stops with has no more digits than there are from the leading one down to its
grid. -/
theorem NearestOnGrid.significantDigits_le {accepts : Nat → Bool} {target level n len : Nat}
    (h : NearestOnGrid accepts target level n) (htarget : target < 10 ^ len)
    (hlevel : level < len) : significantDigits n ≤ len - level := by
  have hpow : 10 ^ len = 10 ^ (len - level) * 10 ^ level := by
    rw [← pow_add, Nat.sub_add_cancel hlevel.le]
  have hstep : 0 < 10 ^ level := Nat.pow_pos (by decide)
  rw [significantDigits_le_iff]
  obtain ⟨m, rfl⟩ := h.dvd
  have hle : m ≤ 10 ^ (len - level) := by
    have hquotient : target / 10 ^ level < 10 ^ (len - level) := by
      rw [Nat.div_lt_iff_lt_mul hstep, ← hpow]
      exact htarget
    have hm := h.le
    rw [Nat.mul_comm] at hm
    exact (Nat.le_of_mul_le_mul_right hm hstep).trans hquotient
  rcases Nat.lt_or_eq_of_le hle with hlt | rfl
  · exact ⟨m, level, Nat.mul_comm _ _, hlt⟩
  · -- Rounding up has carried over to the next power of ten, which has a single digit.
    refine ⟨1, len, ?_, Nat.one_lt_pow (by omega) (by decide)⟩
    rw [Nat.one_mul, hpow, Nat.mul_comm]

section

variable {d : Decimal}

/-- Zero has the decimal without digits. -/
theorem isShortest_of_zero (hzero : x.rank = 0) (hvalue : d.value = 0)
    (hsignificant : d.significant = 0) : IsShortest x d := by
  have hmagnitude : x.magnitude = 0 := by
    rw [← magnitudeAt_zero, ← hzero]
    rfl
  constructor
  case roundsTo =>
    rw [hvalue, hzero, ← magnitudeAt_zero]
    exact RoundsTo.self (Nat.zero_le _)
  case fewest =>
    intro d' _
    rw [hsignificant]
    exact Nat.zero_le _
  case nearest =>
    intro d' _ _
    rw [hvalue, hmagnitude, sub_self, abs_zero]
    exact abs_nonneg _

/-- The nearest decimal of the coarsest grid on which one reads back is the shortest. -/
theorem isShortest_of_coarsest {level n : Nat} (hnonzero : x.rank ≠ 0)
    (hlevel : level ≤ (numeral x.fullScaled).length - 1)
    (hnearest : NearestOnGrid x.readsBack x.fullScaled level n)
    (hcoarser : ∀ k, level < k → k ≤ (numeral x.fullScaled).length - 1 →
      ∀ other, 10 ^ k ∣ other → x.readsBack other = false)
    (hvalue : d.value = n / 10 ^ x.fullPlaces)
    (hsignificant : d.significant = significantDigits n) : IsShortest x d := by
  have hfull : 0 < x.fullScaled := Nat.pos_of_ne_zero (fullScaled_eq_zero_iff.not.mpr hnonzero)
  obtain ⟨hlow, hhigh⟩ := length_numeral_bounds hfull
  generalize (numeral x.fullScaled).length = len at hlevel hcoarser hlow hhigh
  have hlen : 0 < len := by
    by_contra hzero
    rw [Nat.eq_zero_of_not_pos hzero, Nat.pow_zero] at hhigh
    omega
  -- Each grid passed leaves room for one digit less.
  have hdigits : d.significant ≤ len - level := by
    rw [hsignificant]
    exact hnearest.significantDigits_le hhigh (by omega)
  constructor
  case roundsTo =>
    rw [hvalue]
    exact readsBack_iff.mp hnearest.accepted
  case fewest =>
    intro d' hround
    by_contra hfewer
    have hpos := significant_pos hnonzero hround
    -- The grid of the fewer digits would be a coarser one.
    obtain ⟨other, hdvd, hback, _⟩ := competitor hlow hround hpos (by omega)
    rw [hcoarser (len - d'.significant) (by omega) (by omega) other hdvd] at hback
    exact Bool.false_ne_true hback
  case nearest =>
    intro d' hround hsame
    have hpos := significant_pos hnonzero hround
    -- The grid of as many digits is the one that the search stopped at, or part of it.
    obtain ⟨other, hdvd, hback, hnear⟩ := competitor hlow hround hpos (by omega)
    have hdvd' : 10 ^ level ∣ other := (pow_dvd_pow 10 (by omega)).trans hdvd
    have hfound : (distance x.fullScaled n : ℚ) ≤ distance x.fullScaled other := by
      exact_mod_cast hnearest.nearest other hdvd' hback
    have hunit : (0 : ℚ) < 10 ^ x.fullPlaces := by positivity
    rw [hvalue, abs_sub_magnitude, abs_sub_magnitude, div_le_div_iff_of_pos_right hunit,
      div_mul_cancel₀ _ hunit.ne', ← cast_distance]
    exact hfound.trans hnear

end

/-- The search finds the shortest decimal. -/
theorem isShortest_shortest (hrank : x.rank ≤ infinityRank) : IsShortest x x.shortest := by
  obtain ⟨level, hlevel, hnearest, hcoarser⟩ :=
    coarsest_spec (surrounds_readsBack hrank) ((numeral x.fullScaled).length - 1)
  have hvalue := Decimal.value_ofScaled
    (coarsest x.readsBack x.fullScaled ((numeral x.fullScaled).length - 1)) x.fullPlaces
  have hsignificant := Decimal.significant_ofScaled
    (coarsest x.readsBack x.fullScaled ((numeral x.fullScaled).length - 1)) x.fullPlaces
  rw [← shortest] at hvalue hsignificant
  generalize coarsest x.readsBack x.fullScaled ((numeral x.fullScaled).length - 1) = found at *
  by_cases hzero : x.rank = 0
  · -- Zero itself is on every grid, so that nothing else is nearest to it.
    have hfull : x.fullScaled = 0 := fullScaled_eq_zero_iff.mpr hzero
    have hfound : found = 0 := by
      have hle := hnearest.nearest x.fullScaled (by rw [hfull]; exact dvd_zero _)
        (surrounds_readsBack hrank).accepted
      unfold distance at hle
      rw [hfull] at hle
      omega
    apply isShortest_of_zero hzero
    · rw [hvalue, hfound, Nat.cast_zero, zero_div]
    · rw [hsignificant, hfound]
      decide
  · exact isShortest_of_coarsest hzero hlevel hnearest hcoarser hvalue hsignificant

end Bytecode.Binary64
