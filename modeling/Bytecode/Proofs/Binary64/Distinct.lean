import Bytecode.Proofs.Binary64.Text

/-!
# `Bytecode.Proofs.Binary64.Distinct`: numbers with the same text

The text of a number tells its sign and its magnitude, so that two numbers with the same text have
the same bits (`text_eq_iff`). Only what is no number has one text for all its bits, and no sign.

The sign comes first and the rest of the text does not begin with one (`sign_append_inj`). The first
character of the rest tells whether the number is finite (`exists_head?_unsignedText`), and if it is
then the rest is the shortest decimal, which is rounded to the magnitude.
-/

set_option autoImplicit false

namespace Bytecode.Binary64

/-- A sign can be told apart from what comes after it. -/
theorem sign_append_inj {negative negative' : Bool} {rest rest' : Text}
    (hrest : rest.head? ≠ some '-') (hrest' : rest'.head? ≠ some '-') :
    (if negative then ['-'] else []) ++ rest = (if negative' then ['-'] else []) ++ rest'
      ↔ negative = negative' ∧ rest = rest' := by
  cases negative with
  | true =>
      cases negative' with
      | true => simp
      | false =>
          refine ⟨fun h => absurd ?_ hrest', fun h => nomatch h.1⟩
          exact congrArg List.head? h.symm
  | false =>
      cases negative' with
      | true =>
          refine ⟨fun h => absurd ?_ hrest, fun h => nomatch h.1⟩
          exact congrArg List.head? h
      | false => simp

/-- A minus sign is written. -/
def showsMinus (x : Binary64) : Bool := !x.isNaN && x.isNegative

/-- The text of a number without its sign. -/
def unsignedText (x : Binary64) : Text :=
  if x.isNaN then "NaN".toList else if x.isInfinite then "inf".toList else x.shortest.text

/-- A number is written as its sign, if that is a minus, and the rest. -/
theorem text_eq (x : Binary64) :
    x.text {} = (if x.showsMinus then ['-'] else []) ++ x.unsignedText := by
  unfold text showsMinus unsignedText Format.sign
  cases x.isNaN with
  | true => simp [number_of_width]
  | false => simp [number_of_width, decimal]

/-- The first character after the sign tells what is no number, infinity and a finite number
apart. It is not another sign, and not the first letter of a word for another value. -/
theorem exists_head?_unsignedText (x : Binary64) :
    ∃ c, x.unsignedText.head? = some c ∧ c ∉ "-tfn".toList ∧ x.isNaN = decide (c = 'N')
      ∧ (x.isNaN = false → x.isInfinite = decide (c = 'i')) := by
  unfold unsignedText
  cases x.isNaN with
  | true => exact ⟨'N', rfl, by decide, rfl, nofun⟩
  | false =>
      cases x.isInfinite with
      | true => exact ⟨'i', rfl, by decide, rfl, fun _ => rfl⟩
      | false =>
          obtain ⟨c, hc, hdigit⟩ := x.shortest.exists_head?_text
          have hne : ∀ other : Char, other.isDigit = false → c ≠ other := by
            rintro other hother rfl
            rw [hother] at hdigit
            nomatch hdigit
          refine ⟨c, hc, ?_, (decide_eq_false (hne 'N' rfl)).symm,
            fun _ => (decide_eq_false (hne 'i' rfl)).symm⟩
          simp [hne '-' rfl, hne 't' rfl, hne 'f' rfl, hne 'n' rfl]

/-- No number begins like a word for another value. -/
theorem head?_text_ne (x : Binary64) {c : Char} (hc : c ∈ "tfn".toList) :
    (x.text {}).head? ≠ some c := by
  obtain ⟨first, hfirst, hne, -⟩ := x.exists_head?_unsignedText
  rw [text_eq]
  cases x.showsMinus with
  | true =>
      rintro ⟨⟩
      exact absurd hc (by decide)
  | false =>
      intro h
      obtain rfl : first = c := Option.some.inj (hfirst.symm.trans h)
      exact hne (List.mem_cons_of_mem '-' hc)

/-- The signs and the rest of two texts can be compared apart. -/
theorem text_eq_text_iff {x y : Binary64} :
    x.text {} = y.text {} ↔ x.showsMinus = y.showsMinus ∧ x.unsignedText = y.unsignedText := by
  have hsign : ∀ x : Binary64, x.unsignedText.head? ≠ some '-' := by
    intro x h
    obtain ⟨c, hc, hne, -⟩ := x.exists_head?_unsignedText
    obtain rfl : c = '-' := Option.some.inj (hc.symm.trans h)
    exact hne (by decide)
  rw [text_eq, text_eq, sign_append_inj (hsign x) (hsign y)]

/-- The rest of the text tells whether there is a number, and whether it is infinite. -/
theorem class_of_unsignedText_eq {x y : Binary64} (h : x.unsignedText = y.unsignedText) :
    x.isNaN = y.isNaN ∧ (x.isNaN = false → x.isInfinite = y.isInfinite) := by
  obtain ⟨c, hc, -, hnan, hinfinite⟩ := x.exists_head?_unsignedText
  obtain ⟨c', hc', -, hnan', hinfinite'⟩ := y.exists_head?_unsignedText
  obtain rfl : c = c' := Option.some.inj (hc.symm.trans (h ▸ hc'))
  have hsame := hnan.trans hnan'.symm
  exact ⟨hsame, fun hx => (hinfinite hx).trans (hinfinite' (hsame ▸ hx)).symm⟩

/-- The rest of the text of a number tells its rank. -/
theorem rank_eq_of_unsignedText_eq {x y : Binary64} (hnan : x.isNaN = false)
    (h : x.unsignedText = y.unsignedText) : x.rank = y.rank := by
  obtain ⟨hsame, hinfinite⟩ := class_of_unsignedText_eq h
  have hnan' : y.isNaN = false := hsame ▸ hnan
  have hinfinite := hinfinite hnan
  cases hx : x.isInfinite with
  | true =>
      have hy : y.isInfinite = true := hinfinite ▸ hx
      exact (of_decide_eq_true hx).trans (of_decide_eq_true hy).symm
  | false =>
      have hy : y.isInfinite = false := hinfinite ▸ hx
      -- The shortest decimal of a finite number is rounded to its magnitude, and to no other.
      have hround : ∀ {z : Binary64}, z.isNaN = false → RoundsTo z.shortest.value z.rank :=
        fun hz => (isShortest_shortest (Nat.le_of_not_lt (of_decide_eq_false hz))).roundsTo
      have hshortest : x.shortest = y.shortest := by
        unfold unsignedText at h
        simp only [hnan, hnan', hx, hy, Bool.false_eq_true, if_false] at h
        exact Decimal.text_injective h
      have hround' := hround hnan'
      rw [← hshortest] at hround'
      exact (hround hnan).unique hround'

/-- Two numbers have the same text just if they are the same, bit for bit. What is no number has the
same text whatever its bits. -/
theorem text_eq_iff {x y : Binary64} :
    x.text {} = y.text {} ↔ x = y ∨ x.isNaN = true ∧ y.isNaN = true := by
  rw [text_eq_text_iff]
  constructor
  · rintro ⟨hminus, hrest⟩
    have hsame := (class_of_unsignedText_eq hrest).1
    cases hnan : x.isNaN with
    | true => exact .inr ⟨rfl, hsame ▸ hnan⟩
    | false =>
        have hnan' : y.isNaN = false := hsame ▸ hnan
        left
        rw [eq_iff]
        exact ⟨by simpa [showsMinus, hnan, hnan'] using hminus,
          rank_eq_of_unsignedText_eq hnan hrest⟩
  · rintro (rfl | ⟨hx, hy⟩)
    · exact ⟨rfl, rfl⟩
    · simp [showsMinus, unsignedText, hx, hy]

/-! ### Comparison as numbers -/

/-- Numbers are equal if they are the same or both zero. -/
theorem beq_iff {x y : Binary64} :
    (x == y) = true ↔ x.isNaN = false ∧ (x = y ∨ x.rank = 0 ∧ y.rank = 0) := by
  show (!x.isNaN && (decide (x = y) || (decide (x.rank = 0) && decide (y.rank = 0)))) = true ↔ _
  simp

/-- Zero is a number. -/
theorem isNaN_of_rank_eq_zero {x : Binary64} (h : x.rank = 0) : x.isNaN = false := by
  unfold isNaN
  rw [h]
  decide

/-- Both sides of an equality are numbers. -/
theorem isNaN_of_beq {x y : Binary64} (h : (x == y) = true) :
    x.isNaN = false ∧ y.isNaN = false := by
  obtain ⟨hnan, rfl | ⟨-, hy⟩⟩ := beq_iff.mp h
  · exact ⟨hnan, hnan⟩
  · exact ⟨hnan, isNaN_of_rank_eq_zero hy⟩

/-- Equality does not depend on the side. -/
theorem beq_comm (x y : Binary64) : (x == y) = (y == x) := by
  have himp : ∀ {x y : Binary64}, (x == y) = true → (y == x) = true := by
    intro x y h
    rw [beq_iff]
    refine ⟨(isNaN_of_beq h).2, ?_⟩
    rcases (beq_iff.mp h).2 with rfl | ⟨hx, hy⟩
    · exact .inl rfl
    · exact .inr ⟨hy, hx⟩
  exact Bool.eq_iff_iff.mpr ⟨himp, himp⟩

/-- Equality goes on from number to number. -/
theorem beq_trans {x y z : Binary64} (hxy : (x == y) = true) (hyz : (y == z) = true) :
    (x == z) = true := by
  rw [beq_iff]
  refine ⟨(isNaN_of_beq hxy).1, ?_⟩
  rcases (beq_iff.mp hxy).2 with rfl | ⟨hx, hy⟩
  · exact (beq_iff.mp hyz).2
  · rcases (beq_iff.mp hyz).2 with rfl | ⟨-, hz⟩
    · exact .inr ⟨hx, hy⟩
    · exact .inr ⟨hx, hz⟩

/-- What is a number is equal to itself, and what is none is not. -/
theorem beq_self (x : Binary64) : (x == x) = !x.isNaN := by
  rw [Bool.eq_iff_iff, beq_iff]
  simp

/-- There are two zeros, which have the same bits but for the sign. -/
theorem eq_zero_of_rank_eq_zero {x : Binary64} (h : x.rank = 0) :
    x = ⟨0⟩ ∨ x = ⟨0x8000000000000000⟩ := by
  cases hsign : x.isNegative with
  | false => exact .inl (eq_iff.mpr ⟨hsign, h⟩)
  | true => exact .inr (eq_iff.mpr ⟨hsign, h⟩)

/-- Equal numbers are the same, unless they are the two zeros. -/
theorem eq_or_zeros_of_beq {x y : Binary64} (h : (x == y) = true) :
    x = y ∨ x = ⟨0⟩ ∧ y = ⟨0x8000000000000000⟩ ∨ x = ⟨0x8000000000000000⟩ ∧ y = ⟨0⟩ := by
  rcases (beq_iff.mp h).2 with heq | ⟨hx, hy⟩
  · exact .inl heq
  · rcases eq_zero_of_rank_eq_zero hx with rfl | rfl <;>
      rcases eq_zero_of_rank_eq_zero hy with rfl | rfl <;> simp

end Bytecode.Binary64
