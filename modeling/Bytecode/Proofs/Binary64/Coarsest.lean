import Mathlib.Algebra.Order.Ring.Nat
import Mathlib.Tactic.Ring
import Bytecode.Binary64.Shortest
import Bytecode.Proofs.Decimal.Significant

/-!
# `Bytecode.Proofs.Binary64.Coarsest`: the search over the decimal grids

`coarsest` goes over the multiples of the powers of ten, from the coarse grids to the fine ones.
Provided that the accepted numbers form an interval around the target (`Surrounds`), it stops at
the first grid on which a number is accepted at all, with the nearest such number to the target
(`coarsest_spec`).

To try the two neighbours of the target is enough: from an accepted number of a grid to the target
one comes by a neighbour, which is then accepted too (`exists_neighbour`).
-/

set_option autoImplicit false

namespace Bytecode.Binary64

/-- The accepted numbers form an interval around the target. -/
structure Surrounds (accepts : Nat → Bool) (target : Nat) : Prop where
  accepted : accepts target = true
  between : ∀ n n', accepts n = true → (n ≤ n' ∧ n' ≤ target ∨ target ≤ n' ∧ n' ≤ n) →
    accepts n' = true

/-- How far a number is from the target, on either side. -/
def distance (target n : Nat) : Nat := ((n : Int) - target).natAbs

/-- On a grid with the given spacing, the points next to the target: the one at it or below it, and
the one above it. -/
def IsNeighbour (target step n : Nat) : Prop :=
  n = target / step * step ∨ n = target / step * step + step

variable {accepts : Nat → Bool} {target step : Nat}

/-- The target is between its neighbours. -/
theorem between_neighbours (target : Nat) (hstep : 0 < step) :
    target / step * step ≤ target ∧ target < target / step * step + step := by
  have hsplit := Nat.div_add_mod' target step
  have hlt := Nat.mod_lt target hstep
  omega

/-- On the way from an accepted number of the grid to the target there is a neighbour. -/
theorem exists_neighbour (hsurrounds : Surrounds accepts target) (hstep : 0 < step) {other : Nat}
    (hdvd : step ∣ other) (hother : accepts other = true) :
    ∃ n, IsNeighbour target step n ∧ accepts n = true
      ∧ distance target n ≤ distance target other := by
  have hbetween := between_neighbours target hstep
  obtain ⟨m, rfl⟩ := hdvd
  rcases Nat.lt_or_ge (target / step) m with hlt | hge
  · -- Above the target: the number is at the upper neighbour or beyond it.
    have hle : target / step * step + step ≤ step * m := by
      rw [← Nat.succ_mul, Nat.mul_comm step m]
      exact Nat.mul_le_mul_right step hlt
    refine ⟨_, Or.inr rfl, hsurrounds.between _ _ hother (by omega), ?_⟩
    unfold distance
    omega
  · -- Below it: the number is at the lower neighbour or before it.
    have hle : step * m ≤ target / step * step := by
      rw [Nat.mul_comm step m]
      exact Nat.mul_le_mul_right step hge
    refine ⟨_, Or.inl rfl, hsurrounds.between _ _ hother (by omega), ?_⟩
    unfold distance
    omega

/-- One step of the search. It stops with the accepted neighbour, the nearer one of two, or goes on
if neither is accepted. -/
theorem coarsest_succ (accepts : Nat → Bool) (target k : Nat) :
    (IsNeighbour target (10 ^ (k + 1)) (coarsest accepts target (k + 1))
        ∧ accepts (coarsest accepts target (k + 1)) = true
        ∧ ∀ n, IsNeighbour target (10 ^ (k + 1)) n → accepts n = true →
          distance target (coarsest accepts target (k + 1)) ≤ distance target n)
      ∨ (coarsest accepts target (k + 1) = coarsest accepts target k
          ∧ ∀ n, IsNeighbour target (10 ^ (k + 1)) n → accepts n = false) := by
  have hbetween := between_neighbours target (show 0 < 10 ^ (k + 1) from Nat.pow_pos (by decide))
  rw [coarsest, tenPow_eq]
  unfold IsNeighbour distance
  generalize 10 ^ (k + 1) = step at hbetween ⊢
  generalize target / step * step = below at hbetween ⊢
  -- Which of the two neighbours are accepted decides the step.
  cases hbelow : accepts below with
  | true =>
    cases habove : accepts (below + step) with
    | true =>
      left
      dsimp only
      split
      case isTrue hnear =>
        refine ⟨Or.inl rfl, hbelow, ?_⟩
        rintro n (rfl | rfl) _ <;> omega
      case isFalse hfar =>
        refine ⟨Or.inr rfl, habove, ?_⟩
        rintro n (rfl | rfl) _ <;> omega
    | false =>
      left
      refine ⟨Or.inl rfl, hbelow, ?_⟩
      rintro n (rfl | rfl) hn
      · exact Nat.le_refl _
      · exact absurd hn (by rw [habove]; exact Bool.false_ne_true)
  | false =>
    cases habove : accepts (below + step) with
    | true =>
      left
      refine ⟨Or.inr rfl, habove, ?_⟩
      rintro n (rfl | rfl) hn
      · exact absurd hn (by rw [hbelow]; exact Bool.false_ne_true)
      · exact Nat.le_refl _
    | false =>
      right
      refine ⟨rfl, ?_⟩
      rintro n (rfl | rfl)
      · exact hbelow
      · exact habove

/-- The number is on the grid of the given level, and it is accepted. No accepted number of the
grid is nearer to the target. It is not beyond the neighbours of the target. -/
structure NearestOnGrid (accepts : Nat → Bool) (target level n : Nat) : Prop where
  dvd : 10 ^ level ∣ n
  accepted : accepts n = true
  nearest : ∀ other, 10 ^ level ∣ other → accepts other = true →
    distance target n ≤ distance target other
  le : n ≤ (target / 10 ^ level + 1) * 10 ^ level

/-- The finest grid has the target itself. -/
theorem nearestOnGrid_target (hsurrounds : Surrounds accepts target) :
    NearestOnGrid accepts target 0 target where
  dvd := one_dvd _
  accepted := hsurrounds.accepted
  nearest other _ _ := by
    unfold distance
    omega
  le := by
    rw [Nat.pow_zero, Nat.div_one, Nat.mul_one]
    exact Nat.le_succ _

/-- A neighbour that is the nearest accepted one is the nearest on its whole grid. -/
theorem nearestOnGrid_neighbour (hsurrounds : Surrounds accepts target) {level n : Nat}
    (hneighbour : IsNeighbour target (10 ^ level) n) (haccepted : accepts n = true)
    (hnear : ∀ n', IsNeighbour target (10 ^ level) n' → accepts n' = true →
      distance target n ≤ distance target n') :
    NearestOnGrid accepts target level n where
  dvd := by
    rcases hneighbour with rfl | rfl
    · exact Dvd.intro_left _ rfl
    · exact ⟨target / 10 ^ level + 1, by ring⟩
  accepted := haccepted
  nearest other hdvd hother := by
    obtain ⟨n', hn', haccepted', hle⟩ :=
      exists_neighbour hsurrounds (Nat.pow_pos (by decide)) hdvd hother
    exact (hnear n' hn' haccepted').trans hle
  le := by
    rw [Nat.succ_mul]
    rcases hneighbour with rfl | rfl
    · exact Nat.le_add_right _ _
    · exact Nat.le_refl _

/-- The search stops at the first grid on which a number is accepted, with the nearest such
number. -/
theorem coarsest_spec (hsurrounds : Surrounds accepts target) (top : Nat) :
    ∃ level ≤ top, NearestOnGrid accepts target level (coarsest accepts target top)
      ∧ ∀ k, level < k → k ≤ top → ∀ other, 10 ^ k ∣ other → accepts other = false := by
  induction top with
  | zero =>
    exact ⟨0, Nat.le_refl _, nearestOnGrid_target hsurrounds,
      fun k hlt hle => absurd hlt (Nat.not_lt.mpr hle)⟩
  | succ k ih =>
    rcases coarsest_succ accepts target k with ⟨hneighbour, haccepted, hnear⟩ | ⟨hgo, hnone⟩
    · exact ⟨k + 1, Nat.le_refl _, nearestOnGrid_neighbour hsurrounds hneighbour haccepted hnear,
        fun i hlt hle => absurd hlt (Nat.not_lt.mpr hle)⟩
    · obtain ⟨level, hle, hnearest, hcoarser⟩ := ih
      -- The search goes on, and one more grid is among those that have been passed.
      refine ⟨level, Nat.le_succ_of_le hle, by rwa [hgo], fun i hlt hile other hdvd => ?_⟩
      rcases Nat.lt_or_eq_of_le hile with hlt' | rfl
      · exact hcoarser i hlt (Nat.le_of_lt_succ hlt') other hdvd
      · -- An accepted number of the grid just passed would have an accepted neighbour before it.
        rw [Bool.eq_false_iff]
        intro hother
        obtain ⟨n, hn, haccepted, _⟩ :=
          exists_neighbour hsurrounds (Nat.pow_pos (by decide)) hdvd hother
        rw [hnone n hn] at haccepted
        exact Bool.false_ne_true haccepted

end Bytecode.Binary64
