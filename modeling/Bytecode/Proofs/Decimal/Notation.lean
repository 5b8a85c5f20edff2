import Bytecode.Proofs.Decimal.Reading

/-!
# `Bytecode.Proofs.Decimal.Notation`: the number that a text denotes

`denoted?` reads a text as a number: digits, with a point among them or not, and with a sign before
them or not. It is told nothing of how the text was written, and reads zeros in front as readily as
none. So two texts that were written in different ways can be compared by what they denote.

* `magnitude?_text` reads the text of a decimal, with any number of zeros before it.
* `denoted?_sign` takes off the sign, and `denoted?_text` puts the two together.
-/

set_option autoImplicit false

namespace Bytecode

/-- There are only digits in the text, and one at least. -/
def IsNumeral (text : Text) : Prop := text ≠ [] ∧ ∀ c ∈ text, c.isDigit = true

instance (text : Text) : Decidable (IsNumeral text) := inferInstanceAs (Decidable (_ ∧ _))

/-- The number that digits denote, with a point among them or not. A point stands between digits. -/
def magnitude? (text : Text) : Option ℚ :=
  match text.splitOn '.' with
  | [whole] => if IsNumeral whole then some (Decimal.read whole []).value else none
  | [whole, fraction] =>
      if IsNumeral whole ∧ IsNumeral fraction then some (Decimal.read whole fraction).value
      else none
  | _ => none

/-- The number that a text denotes in decimal notation, with a sign or without one. -/
def denoted? : Text → Option ℚ
  | '-' :: rest => (magnitude? rest).map fun q => -q
  | '+' :: rest => magnitude? rest
  | text => magnitude? text

namespace Decimal

/-- Zeros in front of the digits are worth nothing. -/
theorem read_zeros (n : Nat) (whole fraction : Text) :
    read (List.replicate n '0' ++ whole) fraction = read whole fraction := by
  unfold read
  rw [List.append_assoc, Nat.ofDigitChars_append, Nat.ofDigitChars_replicate_zero, Nat.mul_zero]

/-- The digits before the point are a numeral, also with zeros in front of them. -/
theorem isNumeral_wholeDigits (d : Decimal) (n : Nat) :
    IsNumeral (List.replicate n '0' ++ d.wholeDigits) := by
  refine ⟨List.append_ne_nil_of_right_ne_nil _ (numeral_ne_nil _), fun c hc => ?_⟩
  rcases List.mem_append.mp hc with hzero | hdigit
  · rw [List.eq_of_mem_replicate hzero]
    rfl
  · exact isDigit_of_mem_numeral hdigit

/-- The digits after the point are a numeral, if there are places. -/
theorem isNumeral_fractionDigits {d : Decimal} (hplaces : d.places ≠ 0) :
    IsNumeral d.fractionDigits := by
  refine ⟨?_, fun c hc => isDigit_of_mem_digits (List.mem_append_right _ hc)⟩
  rw [← List.length_pos_iff, length_fractionDigits]
  exact Nat.pos_of_ne_zero hplaces

/-- Only digits and the point are in the text of a decimal. -/
theorem isDigit_or_eq_point_of_mem_text {d : Decimal} {c : Char} (h : c ∈ d.text) :
    c.isDigit = true ∨ c = '.' := by
  rw [text_eq, List.mem_append] at h
  rcases h with hwhole | hfraction
  · exact .inl (isDigit_of_mem_digits (List.mem_append_left _ hwhole))
  · split at hfraction
    · nomatch hfraction
    · rcases List.mem_cons.mp hfraction with rfl | hdigit
      · exact .inr rfl
      · exact .inl (isDigit_of_mem_digits (List.mem_append_right _ hdigit))

end Decimal

/-- There is no point in a numeral. -/
theorem IsNumeral.point_not_mem {text : Text} (h : IsNumeral text) : '.' ∉ text := by
  intro hmem
  nomatch h.2 '.' hmem

/-- Numerals with points between them are taken apart at the points. -/
theorem splitOn_numerals {numerals : List Text} (hne : numerals ≠ [])
    (h : ∀ text ∈ numerals, IsNumeral text) :
    (['.'].intercalate numerals).splitOn '.' = numerals :=
  List.splitOn_intercalate '.' (fun text htext => (h text htext).point_not_mem) hne

/-- The text of a decimal denotes its value, also with zeros in front of it. -/
theorem magnitude?_text (n : Nat) (d : Decimal) :
    magnitude? (List.replicate n '0' ++ d.text) = some d.value := by
  let whole := List.replicate n '0' ++ d.wholeDigits
  have hwhole : IsNumeral whole := d.isNumeral_wholeDigits n
  have hread : Decimal.read whole d.fractionDigits = d := by
    rw [Decimal.read_zeros, Decimal.read_text]
  unfold magnitude?
  rw [Decimal.text_eq, ← List.append_assoc]
  by_cases hplaces : d.places = 0
  · -- Without places there is no point.
    have hfraction : d.fractionDigits = [] := if_pos hplaces
    have hsplit := splitOn_numerals (List.cons_ne_nil whole []) (by simpa using hwhole)
    rw [List.intercalate_singleton] at hsplit
    rw [if_pos hplaces, List.append_nil, hsplit]
    dsimp only
    rw [if_pos hwhole, ← hfraction, hread]
  · have hfraction := Decimal.isNumeral_fractionDigits hplaces
    have hsplit := splitOn_numerals (List.cons_ne_nil whole [d.fractionDigits])
      (by simpa using ⟨hwhole, hfraction⟩)
    have hjoin : ['.'].intercalate [whole, d.fractionDigits]
        = whole ++ '.' :: d.fractionDigits := by
      simp [List.intercalate_cons_cons]
    rw [hjoin] at hsplit
    rw [if_neg hplaces, hsplit]
    dsimp only
    rw [if_pos ⟨hwhole, hfraction⟩, hread]

/-- A sign before digits turns the number that they denote, if it is a minus. -/
theorem denoted?_sign (format : Format) (negative : Bool) {digits : Text} {c : Char}
    (hhead : digits.head? = some c) (hdigit : c.isDigit = true) :
    denoted? (format.sign negative ++ digits)
      = (magnitude? digits).map fun q => if negative then -q else q := by
  unfold Format.sign
  cases negative with
  | true => rfl
  | false =>
      simp only [Bool.false_eq_true, if_false, Option.map_id']
      cases format.plus with
      | true => rfl
      | false =>
          -- A digit is no sign.
          obtain ⟨rest, rfl⟩ : ∃ rest, digits = c :: rest := List.head?_eq_some_iff.mp hhead
          show denoted? (c :: rest) = _
          unfold denoted?
          split
          next h =>
            obtain ⟨rfl, -⟩ := List.cons.inj h
            nomatch hdigit
          next h =>
            obtain ⟨rfl, -⟩ := List.cons.inj h
            nomatch hdigit
          next => rfl

/-- The text of a decimal begins with a digit, also with zeros in front of it. -/
theorem exists_head?_zeros_text (n : Nat) (d : Decimal) :
    ∃ c, (List.replicate n '0' ++ d.text).head? = some c ∧ c.isDigit = true := by
  cases n with
  | zero => exact d.exists_head?_text
  | succ n => exact ⟨'0', rfl, rfl⟩

/-- A decimal with a sign denotes its value or the negative of that, whatever number of zeros stand
between the two. -/
theorem denoted?_text (format : Format) (negative : Bool) (n : Nat) (d : Decimal) :
    denoted? (format.sign negative ++ (List.replicate n '0' ++ d.text))
      = some (if negative then -d.value else d.value) := by
  obtain ⟨c, hhead, hdigit⟩ := exists_head?_zeros_text n d
  rw [denoted?_sign format negative hhead hdigit, magnitude?_text, Option.map_some]

end Bytecode
