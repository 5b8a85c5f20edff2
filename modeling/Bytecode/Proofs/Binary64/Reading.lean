import Bytecode.Proofs.Binary64.Rounding
import Bytecode.Proofs.Decimal.Significant

/-!
# `Bytecode.Proofs.Binary64.Reading`: the number that a decimal stands for

A number is its sign and its rank (`eq_iff`). `Reads` says which number a decimal with a sign
stands for: the one of that sign to whose magnitude the decimal is rounded. There is one such
number (`Reads.unique`), and `ofDecimal` finds it (`ofDecimal_eq_iff`).
-/

set_option autoImplicit false

namespace Bytecode.Binary64

variable {x y : Binary64} {negative : Bool} {d : Decimal}

/-- Nothing but the sign and the rank is in a number. -/
theorem eq_iff : x = y ↔ x.isNegative = y.isNegative ∧ x.rank = y.rank := by
  constructor
  · rintro rfl
    exact ⟨rfl, rfl⟩
  · rintro ⟨hsign, hrank⟩
    have hx := x.bits.toNat_lt
    have hy := y.bits.toNat_lt
    have hbit : signBit = 9223372036854775808 := rfl
    -- The sign tells which half the bits are in, and the rank where in it they are.
    unfold isNegative at hsign
    unfold rank at hrank
    rw [decide_eq_decide] at hsign
    have hbits : x.bits.toNat = y.bits.toNat := by
      rw [hbit] at hsign hrank
      omega
    cases x
    cases y
    exact congrArg mk (UInt64.toNat_inj.mp hbits)

/-- The rank leaves the sign bit free. -/
theorem lt_signBit {rank : Nat} (hrank : rank ≤ infinityRank) : rank < signBit :=
  lt_of_le_of_lt hrank (by decide)

section

variable {rank : Nat}

/-- The sign and the rank fit the bits side by side. -/
theorem toNat_bits_ofRank (hrank : rank ≤ infinityRank) (negative : Bool) :
    (ofRank negative rank).bits.toNat = (if negative then signBit else 0) + rank := by
  have hlt := lt_signBit hrank
  have hbit : signBit = 9223372036854775808 := rfl
  unfold ofRank
  rw [UInt64.toNat_ofNat']
  apply Nat.mod_eq_of_lt
  split <;> omega

/-- The sign of a number made from it. -/
theorem isNegative_ofRank (hrank : rank ≤ infinityRank) (negative : Bool) :
    (ofRank negative rank).isNegative = negative := by
  have hlt := lt_signBit hrank
  unfold isNegative
  rw [toNat_bits_ofRank hrank]
  cases negative with
  | false => exact decide_eq_false (by rw [if_neg Bool.false_ne_true]; omega)
  | true => exact decide_eq_true (by rw [if_pos rfl]; omega)

/-- The rank of a number made from it. -/
theorem rank_ofRank (hrank : rank ≤ infinityRank) (negative : Bool) :
    (ofRank negative rank).rank = rank := by
  have hlt := lt_signBit hrank
  unfold Binary64.rank
  rw [toNat_bits_ofRank hrank]
  cases negative with
  | false => rw [if_neg Bool.false_ne_true, Nat.zero_add, Nat.mod_eq_of_lt hlt]
  | true => rw [if_pos rfl, Nat.add_mod_left, Nat.mod_eq_of_lt hlt]

end

/-- The decimal with the sign stands for the number. The sign is carried over, of zero too, and
the decimal is rounded to the number's magnitude. -/
structure Reads (negative : Bool) (d : Decimal) (x : Binary64) : Prop where
  isNegative : x.isNegative = negative
  roundsTo : RoundsTo d.value x.rank

/-- A decimal stands for no two numbers. -/
theorem Reads.unique (hx : Reads negative d x) (hy : Reads negative d y) : x = y :=
  eq_iff.mpr ⟨hx.isNegative.trans hy.isNegative.symm, hx.roundsTo.unique hy.roundsTo⟩

/-- The value of a decimal is rounded to its nearest rank. -/
theorem roundsTo_value (d : Decimal) :
    RoundsTo d.value (nearestRank d.scaled (tenPow d.places)) := by
  have hpos : 0 < tenPow d.places := Nat.pow_pos (by decide)
  have hround := roundsTo_nearestRank d.scaled hpos
  rw [tenPow_eq, Nat.cast_pow, Nat.cast_ofNat] at hround
  exact hround

/-- The number nearest to a decimal is the one that the decimal stands for. -/
theorem ofDecimal_eq_iff : ofDecimal negative d = x ↔ Reads negative d x := by
  have hround := roundsTo_value d
  have hreads : Reads negative d (ofDecimal negative d) := by
    refine ⟨isNegative_ofRank hround.le_infinityRank negative, ?_⟩
    unfold ofDecimal
    rw [rank_ofRank hround.le_infinityRank]
    exact hround
  constructor
  · rintro rfl
    exact hreads
  · exact hreads.unique

end Bytecode.Binary64
