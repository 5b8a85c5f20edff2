import Bytecode.Proofs.Binary64.Distinct
import Bytecode.Text.Record

/-!
# `Bytecode.Proofs.Text.Plain`: what is in the text of an item

A rendering of a record or a list is put together from texts and from marks that give it its
structure: commas, brackets, braces and line breaks. A text without any of these marks is `Plain`,
and can be found in the rendering again.

All that words and numbers are written with is plain: letters, digits, signs, the point and the
blanks of a field. So the text of a value is plain in every format (`Value.plain_text`), and so is
that of a natural number (`Format.legible_natural`). Only a word that has been cut down to nothing
leaves a text empty, and without a precision none is (`Value.legible_text`).
-/

set_option autoImplicit false

namespace Bytecode

/-- The marks that give a rendering its structure. -/
def marks : Text := ",[]\x7b\x7d\n".toList

/-- There is no mark in the text. -/
def Plain (text : Text) : Prop := ∀ c ∈ text, c ∉ marks

/-- A text is looked through character by character. -/
instance (text : Text) : Decidable (Plain text) := List.decidableBAll (· ∉ marks) text

/-- There is something in the text, and no mark. -/
structure Legible (text : Text) : Prop where
  plain : Plain text
  nonempty : text ≠ []

/-- Each text that the part is made of has the property. -/
inductive Item.Each (P : Text → Prop) : Item → Prop
  | leaf {text : Text} (h : P text) : Each P (.leaf text)
  | list {elements : List Text} (h : ∀ element ∈ elements, P element) : Each P (.list elements)

@[simp] theorem plain_nil : Plain [] := nofun

@[simp] theorem plain_append {first second : Text} :
    Plain (first ++ second) ↔ Plain first ∧ Plain second := by
  simp only [Plain, List.mem_append, or_imp, forall_and]

/-- A character that is no mark can be repeated. -/
theorem plain_replicate {c : Char} (h : c ∉ marks) (n : Nat) : Plain (List.replicate n c) := by
  intro other hother
  rw [List.eq_of_mem_replicate hother]
  exact h

/-- A mark is not in a plain text. -/
theorem Plain.not_mem {text : Text} (plain : Plain text) {c : Char} (hc : c ∈ marks) : c ∉ text :=
  fun hmem => plain c hmem hc

/-- No mark is a digit. -/
theorem not_mem_marks_of_isDigit {c : Char} (h : c.isDigit = true) : c ∉ marks := by
  have hmarks : (marks.all fun mark => !mark.isDigit) = true := by decide
  intro hc
  have hnot := List.all_eq_true.mp hmarks c hc
  rw [h] at hnot
  nomatch hnot

/-- A numeral is plain. -/
theorem plain_numeral (n : Nat) : Plain (numeral n) := fun _ hc =>
  not_mem_marks_of_isDigit (isDigit_of_mem_numeral hc)

/-- The text of a decimal is plain. -/
theorem Decimal.plain_text (d : Decimal) : Plain d.text := by
  have hdigits : Plain (d.wholeDigits ++ d.fractionDigits) := fun _ hc =>
    not_mem_marks_of_isDigit (isDigit_of_mem_digits hc)
  rw [plain_append] at hdigits
  rw [text_eq, plain_append]
  refine ⟨hdigits.1, ?_⟩
  split
  · exact plain_nil
  · intro c hc
    rcases List.mem_cons.mp hc with rfl | hc
    · decide
    · exact hdigits.2 c hc

namespace Format

variable (format : Format)

/-- The blanks of a field are no marks. -/
theorem plain_pad (usual : Alignment) {text : Text} (h : Plain text) :
    Plain (format.pad usual text) := by
  have hblanks : ∀ n, Plain (List.replicate n ' ') := plain_replicate (by decide)
  simp [pad, hblanks, h]

/-- A word stays plain when it is cut. -/
theorem plain_word {text : Text} (h : Plain text) : Plain (format.word text) := by
  apply plain_pad
  cases format.precision with
  | none => exact h
  | some n => exact fun c hc => h c (List.mem_of_mem_take hc)

/-- A sign is no mark. -/
theorem plain_sign (negative : Bool) : Plain (format.sign negative) := by
  have hplus : ∀ plus : Bool, Plain (if plus then ['+'] else []) := by decide
  cases negative with
  | true =>
      show Plain ['-']
      decide
  | false => exact hplus format.plus

/-- Neither blanks nor zeros are marks. -/
theorem plain_number {sign digits : Text} (hsign : Plain sign) (hdigits : Plain digits) :
    Plain (format.number sign digits) := by
  have hzeros : ∀ n, Plain (List.replicate n '0') := plain_replicate (by decide)
  unfold number
  split
  · simp [hsign, hzeros, hdigits]
  · exact format.plain_pad .right (plain_append.mpr ⟨hsign, hdigits⟩)

/-- A natural number is legible in every format. -/
theorem legible_natural (n : Nat) : Legible (format.natural n) where
  plain := format.plain_number (format.plain_sign false) (plain_numeral n)
  nonempty := by
    -- The field is no shorter than the digits.
    have hdigits := List.length_pos_iff.mpr (numeral_ne_nil n)
    rw [← List.length_pos_iff, natural, length_number]
    omega

end Format

/-- A number is plain in every format. -/
theorem Binary64.plain_text (format : Format) (x : Binary64) : Plain (x.text format) := by
  unfold text
  split
  · exact format.plain_number plain_nil (by decide)
  · apply format.plain_number (format.plain_sign x.isNegative)
    split
    · decide
    · exact (x.decimal format).plain_text

namespace Value

/-- A value is plain in every format. -/
theorem plain_text (format : Format) (value : Value) : Plain (value.text format) := by
  cases value with
  | bool b =>
      apply format.plain_word
      cases b <;> decide
  | nil =>
      show Plain "nil".toList
      decide
  | number x => exact x.plain_text format

/-- There is something in the text of a value that is written without a format. -/
theorem legible_text (value : Value) : Legible (value.text {}) where
  plain := value.plain_text {}
  nonempty := by
    cases value with
    | bool b => cases b <;> decide
    | nil => exact List.cons_ne_nil _ _
    | number x =>
        obtain ⟨c, hhead, -⟩ := x.exists_head?_unsignedText
        have hne : x.unsignedText ≠ [] := fun hnil => nomatch hnil ▸ hhead
        show x.text {} ≠ []
        rw [Binary64.text_eq]
        exact List.append_ne_nil_of_right_ne_nil _ hne

end Value

end Bytecode
