import Bytecode.Proofs.Decimal.Significant
import Bytecode.Proofs.Text.Parts

/-!
# `Bytecode.Proofs.Decimal.Reading`: the text of a decimal and back

`Positional` is the form of a decimal number without an exponent: a sign, the digits before the
point with no zero in front that could be left out, and the digits after the point with no zero
at the end. A number without digits after the point has no point. `FixedPoint` is the form with a
given number of digits after the point, zeros at the end included.

`Decimal.read` is the decimal that such digits spell. The text of a decimal has the second form
(`Decimal.fixedPoint_text`), that of a reduced decimal has the first (`Decimal.positional_text`),
and the digits spell the decimal (`Decimal.read_text`). So no two decimals have the same text
(`Decimal.text_injective`).
-/

set_option autoImplicit false

namespace Bytecode

/-! ### Numerals -/

/-- A numeral is its last digit with the numeral of the other digits before it, if there are
others. -/
theorem numeral_eq (n : Nat) :
    numeral n = (if n < 10 then [] else numeral (n / 10)) ++ [(n % 10).digitChar] := by
  unfold numeral
  rw [Nat.toDigits_eq_if (by decide)]
  split
  case isTrue h => rw [Nat.mod_eq_of_lt h, List.nil_append]
  case isFalse h => rfl

/-- There is always a digit. -/
theorem numeral_ne_nil (n : Nat) : numeral n ≠ [] := by
  rw [numeral_eq]
  exact List.append_ne_nil_of_right_ne_nil _ (List.cons_ne_nil _ _)

/-- Only digits are in a numeral. -/
theorem isDigit_of_mem_numeral {n : Nat} {c : Char} (h : c ∈ numeral n) : c.isDigit = true :=
  Nat.isDigit_of_mem_toDigits (by decide) (by decide) h

/-- A character that is no digit is in no numeral. -/
theorem not_mem_numeral {c : Char} (h : c.isDigit = false) (n : Nat) : c ∉ numeral n := by
  intro hmem
  exact absurd (isDigit_of_mem_numeral hmem) (Bool.eq_false_iff.mp h)

/-- The numeral of a positive number does not begin with a zero. -/
theorem head?_numeral_ne {n : Nat} (hpos : 0 < n) : (numeral n).head? ≠ some '0' := by
  induction n using Nat.strongRecOn with
  | ind n ih =>
    rw [numeral_eq]
    -- The first digit is that of the number without its last digit, if there are two.
    by_cases hlt : n < 10
    · rw [if_pos hlt, List.nil_append, List.head?_cons, ne_eq, Option.some.injEq,
        Nat.digitChar_eq_zero]
      omega
    · rw [if_neg hlt, List.head?_append_of_ne_nil _ (numeral_ne_nil _)]
      exact ih (n / 10) (by omega) (by omega)

/-- A numeral spells its number. -/
theorem ofDigitChars_numeral (n : Nat) : Nat.ofDigitChars 10 (numeral n) 0 = n :=
  Nat.ofDigitChars_ten_toDigits

/-- Different numbers have different numerals. -/
theorem numeral_injective : Function.Injective numeral :=
  Function.LeftInverse.injective ofDigitChars_numeral

/-- The length of a numeral is the place of its leading digit. -/
theorem length_numeral_bounds {n : Nat} (hpos : 0 < n) :
    10 ^ ((numeral n).length - 1) ≤ n ∧ n < 10 ^ (numeral n).length := by
  have hlength : 0 < (numeral n).length := Nat.length_toDigits_pos
  have hiff : ∀ k, 0 < k → ((numeral n).length ≤ k ↔ n < 10 ^ k) := fun k hk =>
    Nat.length_toDigits_le_iff (by decide) hk
  refine ⟨?_, (hiff _ hlength).mp (Nat.le_refl _)⟩
  -- The bound for one digit less fails, but it can only be asked for if there is another digit.
  by_cases hone : (numeral n).length = 1
  · rw [hone]
    exact hpos
  · have hnot := (hiff ((numeral n).length - 1) (by omega)).not
    exact Nat.not_lt.mp (hnot.mp (by omega))

/-! ### Texts -/

/-- The text is a decimal number with the given number of digits after the point, and no point if
there are none. -/
structure FixedPoint (negative : Bool) (places : Nat) (whole fraction text : Text) : Prop where
  spelled : text =
    (if negative then ['-'] else []) ++ whole ++ (if places = 0 then [] else '.' :: fraction)
  nonempty : whole ≠ []
  length_fraction : fraction.length = places
  isDigit : ∀ c ∈ whole ++ fraction, c.isDigit = true
  no_leading_zero : whole = ['0'] ∨ whole.head? ≠ some '0'

namespace Decimal

/-- The decimal that the digits before and after the point spell. -/
def read (whole fraction : Text) : Decimal :=
  ⟨Nat.ofDigitChars 10 (whole ++ fraction) 0, fraction.length⟩

/-- The digits before the point. -/
def wholeDigits (d : Decimal) : Text := numeral (d.scaled / 10 ^ d.places)

/-- The digits after the point, if there is one. -/
def fractionDigits (d : Decimal) : Text := if d.places = 0 then [] else d.fraction

variable {d : Decimal}

/-- There are as many digits after the point as there are places. -/
theorem length_fractionDigits : d.fractionDigits.length = d.places := by
  unfold fractionDigits
  split
  case isTrue h => exact h.symm
  case isFalse h =>
    have hlt : d.scaled % tenPow d.places < 10 ^ d.places :=
      Nat.mod_lt _ (Nat.pow_pos (by decide))
    have hle : (numeral (d.scaled % tenPow d.places)).length ≤ d.places :=
      (Nat.length_toDigits_le_iff (by decide) (Nat.pos_of_ne_zero h)).mpr hlt
    rw [length_fraction]
    omega

/-- The digits after the point spell what the point divides off. -/
theorem ofDigitChars_fractionDigits :
    Nat.ofDigitChars 10 d.fractionDigits 0 = d.scaled % 10 ^ d.places := by
  unfold fractionDigits
  split
  case isTrue h =>
    rw [h, Nat.pow_zero, Nat.mod_one]
    rfl
  case isFalse h =>
    unfold fraction List.leftpad
    rw [Nat.ofDigitChars_append, Nat.ofDigitChars_replicate_zero, Nat.mul_zero,
      ofDigitChars_numeral, tenPow_eq]

/-- The digits of a decimal spell it. -/
theorem read_text (d : Decimal) : read d.wholeDigits d.fractionDigits = d := by
  unfold read wholeDigits
  rw [Nat.ofDigitChars_append, Nat.ofDigitChars_eq_ofDigitChars_zero, ofDigitChars_numeral,
    ofDigitChars_fractionDigits, length_fractionDigits, Nat.div_add_mod]

/-- Only digits stand before the point and after it. -/
theorem isDigit_of_mem_digits {c : Char} (h : c ∈ d.wholeDigits ++ d.fractionDigits) :
    c.isDigit = true := by
  rcases List.mem_append.mp h with hwhole | hfraction
  · exact isDigit_of_mem_numeral hwhole
  · unfold fractionDigits at hfraction
    split at hfraction
    case isTrue h => exact absurd hfraction List.not_mem_nil
    case isFalse h =>
      rcases List.mem_append.mp hfraction with hzero | hdigit
      · rw [List.eq_of_mem_replicate hzero]
        rfl
      · exact isDigit_of_mem_numeral hdigit

/-- The digits before the point begin with a zero only if that is all. -/
theorem wholeDigits_no_leading_zero (d : Decimal) :
    d.wholeDigits = ['0'] ∨ d.wholeDigits.head? ≠ some '0' := by
  rcases Nat.eq_zero_or_pos (d.scaled / 10 ^ d.places) with hzero | hpos
  · left
    unfold wholeDigits
    rw [hzero]
    rfl
  · exact Or.inr (head?_numeral_ne hpos)

/-- A decimal is written with as many digits after the point as it has places. -/
theorem fixedPoint_text (d : Decimal) (negative : Bool) :
    FixedPoint negative d.places d.wholeDigits d.fractionDigits
      ((if negative then ['-'] else []) ++ d.text) where
  spelled := by
    unfold text
    rw [List.append_assoc]
    congr 2
    by_cases h : d.places = 0
    · rw [if_pos h, if_pos h]
    · rw [if_neg h, if_neg h, fractionDigits, if_neg h]
  nonempty := numeral_ne_nil _
  length_fraction := length_fractionDigits
  isDigit _ := isDigit_of_mem_digits
  no_leading_zero := wholeDigits_no_leading_zero d

/-- The digits before the point are followed by nothing or by the point and the digits after it. -/
theorem text_eq (d : Decimal) :
    d.text = d.wholeDigits ++ (if d.places = 0 then [] else '.' :: d.fractionDigits) :=
  (fixedPoint_text d false).spelled

/-- No two decimals have the same text. The point is where the digits before it end, and the digits
on both sides spell the decimal. -/
theorem text_injective : Function.Injective text := by
  intro d d' h
  have hpoint : ∀ d : Decimal, '.' ∉ d.wholeDigits := fun d => not_mem_numeral rfl _
  have hnil : ∀ d : Decimal, d.places = 0 → d.fractionDigits = [] := fun d hzero => if_pos hzero
  suffices hdigits : d.wholeDigits = d'.wholeDigits ∧ d.fractionDigits = d'.fractionDigits by
    rw [← read_text d, ← read_text d', hdigits.1, hdigits.2]
  rw [text_eq, text_eq] at h
  by_cases hplaces : d.places = 0
  · by_cases hplaces' : d'.places = 0
    · rw [hnil d hplaces, hnil d' hplaces']
      simpa [hplaces, hplaces'] using h
    · -- Only one of them has a point.
      rw [if_pos hplaces, if_neg hplaces', List.append_nil] at h
      exact absurd (h ▸ by simp) (hpoint d)
  · by_cases hplaces' : d'.places = 0
    · rw [if_neg hplaces, if_pos hplaces', List.append_nil] at h
      exact absurd (h ▸ by simp) (hpoint d')
    · rwa [if_neg hplaces, if_neg hplaces', separated_inj (hpoint d) (hpoint d')] at h

/-- The text of a decimal begins with a digit. -/
theorem exists_head?_text (d : Decimal) : ∃ c, d.text.head? = some c ∧ c.isDigit = true := by
  have hne : d.wholeDigits ≠ [] := numeral_ne_nil _
  rw [text_eq, List.head?_append_of_ne_nil _ hne]
  exact ⟨_, List.head?_eq_some_head hne, isDigit_of_mem_numeral (List.head_mem hne)⟩

end Decimal

end Bytecode
