import Bytecode.Proofs.Binary64.Distinct

/-!
# `Bytecode.Proofs.Value.Equality`: equal values and equal texts

There are two ways to compare values: as the running program does, by `==`, and by their texts.

* `==` is symmetric and transitive, and never holds between values of different kinds (`SameKind`).
  It is reflexive but for what is no number.
* Two values have the same text just if they are `Indistinct`: the same kind with the same bits, or
  both no number (`text_eq_text_iff`).

`equality_and_text` puts the two side by side. They differ on two points only: the two zeros are
equal and have different texts, and what is no number has one text and is equal to nothing.
-/

set_option autoImplicit false

namespace Bytecode.Value

/-- The values are of one kind. -/
inductive SameKind : Value → Value → Prop
  | bool (b b' : Bool) : SameKind (.bool b) (.bool b')
  | nil : SameKind .nil .nil
  | number (x y : Binary64) : SameKind (.number x) (.number y)

/-- The value is no number although it is of that kind. -/
def isNaN : Value → Bool
  | number x => x.isNaN
  | _ => false

/-- The values are of one kind and have the same bits, or neither is a number although it is of that
kind. -/
def Indistinct (a b : Value) : Prop := a = b ∨ a.isNaN = true ∧ b.isNaN = true

variable {a b c : Value}

/-! ### Equality -/

/-- Booleans are compared as booleans. -/
theorem bool_beq_bool (x y : Bool) : (bool x == bool y) = (x == y) := rfl

/-- Numbers are compared as numbers. -/
theorem number_beq_number (x y : Binary64) : (number x == number y) = (x == y) := rfl

/-- Equal values are of one kind. -/
theorem sameKind_of_beq (h : (a == b) = true) : a.SameKind b := by
  cases a <;> cases b <;> first | constructor | nomatch h

/-- Equality does not depend on the side. -/
theorem beq_comm (a b : Value) : (a == b) = (b == a) := by
  cases a with
  | bool x =>
      cases b with
      | bool y =>
          rw [bool_beq_bool, bool_beq_bool]
          exact BEq.comm
      | _ => rfl
  | nil => cases b <;> rfl
  | number x =>
      cases b with
      | number y =>
          rw [number_beq_number, number_beq_number]
          exact Binary64.beq_comm x y
      | _ => rfl

/-- Equality goes on from value to value. -/
theorem beq_trans (hab : (a == b) = true) (hbc : (b == c) = true) : (a == c) = true := by
  cases sameKind_of_beq hab with
  | bool x y =>
      cases sameKind_of_beq hbc with
      | bool _ z =>
          rw [bool_beq_bool] at hab hbc ⊢
          exact PartialEquivBEq.trans hab hbc
  | nil => exact hbc
  | number x y =>
      cases sameKind_of_beq hbc with
      | number _ z => exact Binary64.beq_trans hab hbc

/-- A value is equal to itself unless it is no number. -/
theorem beq_self (a : Value) : (a == a) = !a.isNaN := by
  cases a with
  | bool x =>
      rw [bool_beq_bool]
      exact BEq.rfl
  | nil => rfl
  | number x => exact x.beq_self

/-- What is no number is not equal to anything. -/
theorem isNaN_of_beq (h : (a == b) = true) : a.isNaN = false := by
  have hself : (a == a) = true := beq_trans h (beq_comm a b ▸ h)
  rw [beq_self] at hself
  exact (Bool.not_eq_true' _).mp hself

/-- The two zeros are equal. -/
theorem zero_beq_neg_zero : (number ⟨0⟩ == number ⟨0x8000000000000000⟩) = true := by decide

/-- Equal values are the same, unless they are the two zeros. -/
theorem eq_or_zeros_of_beq (h : (a == b) = true) :
    a = b ∨ a = .number ⟨0⟩ ∧ b = .number ⟨0x8000000000000000⟩
      ∨ a = .number ⟨0x8000000000000000⟩ ∧ b = .number ⟨0⟩ := by
  cases sameKind_of_beq h with
  | bool x y => exact .inl (congrArg bool (eq_of_beq h))
  | nil => exact .inl rfl
  | number x y =>
      rcases Binary64.eq_or_zeros_of_beq h with rfl | ⟨rfl, rfl⟩ | ⟨rfl, rfl⟩
      · exact .inl rfl
      · exact .inr (.inl ⟨rfl, rfl⟩)
      · exact .inr (.inr ⟨rfl, rfl⟩)

/-! ### Texts -/

/-- No number has the word for a value of another kind. -/
theorem text_ne_text_of_number (x : Binary64) {b : Value} (hkind : ¬ (number x).SameKind b) :
    (number x).text {} ≠ b.text {} := by
  have hword : ∀ c ∈ "tfn".toList, ∀ rest, x.text {} ≠ c :: rest := by
    intro c hc rest h
    exact x.head?_text_ne hc (congrArg List.head? h)
  cases b with
  | bool y =>
      cases y with
      | true => exact hword 't' (by decide) _
      | false => exact hword 'f' (by decide) _
  | nil => exact hword 'n' (by decide) _
  | number y => exact absurd (.number x y) hkind

/-- Values of different kinds have different texts. -/
theorem sameKind_of_text_eq (h : a.text {} = b.text {}) : a.SameKind b := by
  by_contra hkind
  cases a with
  | number x => exact absurd h (text_ne_text_of_number x hkind)
  | bool x =>
      cases b with
      | number y => exact absurd h.symm (text_ne_text_of_number y nofun)
      | bool y => exact hkind (.bool x y)
      | nil => cases x <;> exact absurd h (by decide)
  | nil =>
      cases b with
      | number y => exact absurd h.symm (text_ne_text_of_number y nofun)
      | bool y => cases y <;> exact absurd h (by decide)
      | nil => exact hkind .nil

/-- Two values have the same text just if they are indistinct. -/
theorem text_eq_text_iff : a.text {} = b.text {} ↔ a.Indistinct b := by
  unfold Indistinct
  constructor
  · intro h
    cases sameKind_of_text_eq h with
    | bool x y => cases x <;> cases y <;> first | exact .inl rfl | exact absurd h (by decide)
    | nil => exact .inl rfl
    | number x y =>
        rcases Binary64.text_eq_iff.mp h with rfl | hnan
        · exact .inl rfl
        · exact .inr hnan
  · rintro (rfl | ⟨ha, hb⟩)
    · rfl
    · cases a with
      | number x =>
          cases b with
          | number y => exact Binary64.text_eq_iff.mpr (.inr ⟨ha, hb⟩)
          | _ => nomatch hb
      | _ => nomatch ha

/-- Equality is symmetric and transitive, its negation is inequality, and it is reflexive but for
what is no number. Values of different kinds are not equal, and two values have the same text just
if they are of one kind and have the same bits, or if neither is a number. So equal values have the
same text, unless they are the two zeros, which are equal and do not, and values with the same text
are equal, unless neither is a number. -/
theorem equality_and_text (a b c : Value) :
    (a == b) = (b == a)
      ∧ ((a == b) = true → (b == c) = true → (a == c) = true)
      ∧ (a != b) = !(a == b)
      ∧ ((a == a) = true ↔ a.isNaN = false)
      ∧ (¬ a.SameKind b → (a == b) = false)
      ∧ (a.text {} = b.text {} ↔ a.Indistinct b)
      ∧ (number ⟨0⟩ == number ⟨0x8000000000000000⟩) = true
      ∧ ((a == b) = true → (a.text {} = b.text {}
          ↔ ¬ (a = .number ⟨0⟩ ∧ b = .number ⟨0x8000000000000000⟩
            ∨ a = .number ⟨0x8000000000000000⟩ ∧ b = .number ⟨0⟩)))
      ∧ (a.text {} = b.text {} → ((a == b) = false ↔ a.isNaN = true ∧ b.isNaN = true)) := by
  refine ⟨beq_comm a b, beq_trans, rfl, ?_, ?_, text_eq_text_iff, zero_beq_neg_zero, ?_, ?_⟩
  · rw [beq_self, Bool.not_eq_true']
  · intro hkind
    exact Bool.eq_false_iff.mpr fun h => hkind (sameKind_of_beq h)
  · intro h
    rcases eq_or_zeros_of_beq h with rfl | ⟨rfl, rfl⟩ | ⟨rfl, rfl⟩
    · -- The same value is not both zeros.
      refine iff_of_true rfl ?_
      rintro (⟨rfl, hzero⟩ | ⟨rfl, hzero⟩) <;> exact absurd hzero (by decide)
    · exact iff_of_false (by decide +kernel) (by simp)
    · exact iff_of_false (by decide +kernel) (by simp)
  · intro h
    rcases text_eq_text_iff.mp h with rfl | ⟨ha, hb⟩
    · rw [beq_self, Bool.not_eq_false', and_self]
    · refine iff_of_true (Bool.eq_false_iff.mpr fun heq => ?_) ⟨ha, hb⟩
      rw [isNaN_of_beq heq] at ha
      nomatch ha

end Bytecode.Value
