import Bytecode.Pool.Basic
import Bytecode.Proofs.Binary64.Text
import Bytecode.Proofs.Decimal.Notation

/-!
# `Bytecode.Proofs.Value.Field`: values in fields

A format gives an item a field and places it there. What the item is does not depend on that: the
text in the field is the text in the `bare` format, which has the same precision and signs and no
field, with blanks around it (`Surrounded`). Only where the zero flag is set is a number taken
apart, and the zeros put between its sign and the rest (`number_of_zero`). Then the text is another
one, but it begins with the same sign and denotes the same number.

`text_in_field` says so of all values in all formats.
-/

set_option autoImplicit false

namespace Bytecode

/-! ### Fields -/

/-- The text is `core` with blanks around it that bring it up to the width. They are where the
alignment puts them: after what is on the left, before what is on the right, and half of them,
rounded down, before what is in the center. -/
def Surrounded (align : Alignment) (width : Nat) (core text : Text) : Prop :=
  ∃ before after,
    text = List.replicate before ' ' ++ core ++ List.replicate after ' '
      ∧ before + after = width - core.length
      ∧ match align with
        | .left => before = 0
        | .center => before = (before + after) / 2
        | .right => after = 0

namespace Format

variable (format : Format)

/-- The format with the same precision and signs and without a field. -/
def bare : Format := { format with width := 0, align := none, zero := false }

/-- A padded text is the text with blanks around it. -/
theorem surrounded_pad (usual : Alignment) (text : Text) :
    Surrounded (format.align.getD usual) format.width text (format.pad usual text) := by
  -- The gap is what the text falls short of the width, none if it is longer.
  let gap := format.width - text.length
  let before := (format.align.getD usual).leading gap
  have hgap : before + (gap - before) = gap :=
    Nat.add_sub_of_le ((format.align.getD usual).leading_le gap)
  refine ⟨before, gap - before, rfl, hgap, ?_⟩
  rw [hgap]
  show match format.align.getD usual with
    | .left => (format.align.getD usual).leading gap = 0
    | .center => (format.align.getD usual).leading gap = gap / 2
    | .right => gap - (format.align.getD usual).leading gap = 0
  cases format.align.getD usual with
  | left | center => rfl
  | right => exact Nat.sub_self gap

/-- In the bare format a number is its sign and its digits. -/
theorem number_bare (sign digits : Text) : format.bare.number sign digits = sign ++ digits :=
  Binary64.number_of_width rfl sign digits

/-- A word is cut first, and then put into its field. -/
theorem word_eq_pad (text : Text) :
    format.word text = format.pad .left (format.bare.word text) := by
  have hbare : ∀ text : Text, format.bare.pad .left text = text := by
    intro text
    simp [pad, bare, Alignment.leading]
  unfold word
  rw [hbare]
  rfl

/-- Without the zero flag a number is put into its field as a whole. -/
theorem number_of_not_zero {format : Format} (hzero : format.zero = false) (sign digits : Text) :
    format.number sign digits = format.pad .right (sign ++ digits) := by
  unfold number
  rw [hzero, if_neg Bool.false_ne_true]

/-- With the zero flag the field is filled with zeros between the sign and the digits. -/
theorem number_of_zero {format : Format} (hzero : format.zero = true) (sign digits : Text) :
    ∃ n, format.number sign digits = sign ++ (List.replicate n '0' ++ digits) := by
  unfold number
  rw [hzero, if_pos rfl]
  exact ⟨_, List.append_assoc ..⟩

end Format

/-! ### Numbers -/

namespace Binary64

variable (format : Format) (x : Binary64)

/-- The sign that a number is written with. What is no number has none. -/
def signText : Text := if x.isNaN then [] else format.sign x.isNegative

/-- What a number is written with after its sign. -/
def digitText : Text :=
  if x.isNaN then "NaN".toList
  else if x.isInfinite then "inf".toList
  else (x.decimal format).text

/-- A number is written as its sign and the rest. -/
theorem text_eq_number :
    x.text format = format.number (x.signText format) (x.digitText format) := by
  unfold text signText digitText
  cases x.isNaN <;> rfl

/-- Without a field there is nothing else. -/
theorem text_bare : x.text format.bare = x.signText format ++ x.digitText format := by
  rw [text_eq_number, Format.number_bare]
  rfl

/-- There is no blank in what comes after the sign, and it does not begin with another sign. -/
theorem digitText_spec :
    ' ' ∉ x.digitText format ∧ ∃ c, (x.digitText format).head? = some c ∧ c ∉ "+-".toList := by
  unfold digitText
  split
  · exact ⟨by decide, 'N', rfl, by decide⟩
  · split
    · exact ⟨by decide, 'i', rfl, by decide⟩
    · refine ⟨fun hblank => ?_, ?_⟩
      · rcases Decimal.isDigit_or_eq_point_of_mem_text hblank with hdigit | hpoint
        · nomatch hdigit
        · nomatch hpoint
      · obtain ⟨c, hhead, hdigit⟩ := (x.decimal format).exists_head?_text
        refine ⟨c, hhead, fun hc => ?_⟩
        have hsign : c = '+' ∨ c = '-' := by simpa using hc
        rcases hsign with rfl | rfl <;> nomatch hdigit

/-- There is no blank in a sign. -/
theorem blank_not_mem_signText : ' ' ∉ x.signText format := by
  have hplus : ∀ plus : Bool, ' ' ∉ (if plus then ['+'] else []) := by decide
  unfold signText Format.sign
  cases x.isNaN with
  | true => exact List.not_mem_nil
  | false =>
      cases x.isNegative with
      | true =>
          show ' ' ∉ ['-']
          decide
      | false => exact hplus format.plus

section Zeros

variable {format : Format} {x : Binary64} (hzero : format.zero = true)

include hzero

/-- With the zero flag there are zeros between the sign and the rest, and no blanks. -/
theorem text_of_zero :
    ∃ n, x.text format = x.signText format ++ (List.replicate n '0' ++ x.digitText format) := by
  rw [text_eq_number]
  exact Format.number_of_zero hzero _ _

/-- A field that is filled with zeros has no blanks. -/
theorem blank_not_mem_text : ' ' ∉ x.text format := by
  obtain ⟨n, htext⟩ := text_of_zero (x := x) hzero
  rw [htext, List.mem_append, List.mem_append]
  rintro (hsign | hzeros | hdigits)
  · exact x.blank_not_mem_signText format hsign
  · nomatch List.eq_of_mem_replicate hzeros
  · exact (x.digitText_spec format).1 hdigits

/-- Zeros come after the sign. -/
theorem head?_text_of_sign {c : Char} (hc : c ∈ "+-".toList)
    (hbare : (x.text format.bare).head? = some c) : (x.text format).head? = some c := by
  obtain ⟨n, htext⟩ := text_of_zero (x := x) hzero
  rw [text_bare] at hbare
  rw [htext]
  cases hsign : x.signText format with
  | nil =>
      -- Without a sign the text begins with something else.
      obtain ⟨other, hhead, hother⟩ := (x.digitText_spec format).2
      rw [hsign, List.nil_append, hhead] at hbare
      obtain rfl : other = c := Option.some.inj hbare
      exact absurd hc hother
  | cons first rest =>
      rw [hsign] at hbare
      exact hbare

/-- Zeros after the sign do not change what is denoted. -/
theorem denoted?_text_of_zero (hnan : x.isNaN = false) (hinfinite : x.isInfinite = false) :
    ∃ q, denoted? (x.text format) = some q ∧ denoted? (x.text format.bare) = some q := by
  have hsign : x.signText format = format.sign x.isNegative := by
    unfold signText
    rw [hnan, if_neg Bool.false_ne_true]
  have hdigits : x.digitText format = (x.decimal format).text := by
    unfold digitText
    rw [hnan, hinfinite, if_neg Bool.false_ne_true, if_neg Bool.false_ne_true]
  obtain ⟨n, htext⟩ := text_of_zero (x := x) hzero
  rw [htext, text_bare, hsign, hdigits]
  exact ⟨_, denoted?_text format x.isNegative n (x.decimal format),
    denoted?_text format x.isNegative 0 (x.decimal format)⟩

end Zeros

end Binary64

/-! ### Values -/

namespace Value

/-- A boolean is put into its field as a word, to the left unless the format says otherwise. -/
theorem surrounded_bool (format : Format) (b : Bool) :
    Surrounded (format.align.getD .left) format.width (text format.bare (.bool b))
      (text format (.bool b)) := by
  show Surrounded _ _ (format.bare.word _) (format.word _)
  rw [format.word_eq_pad]
  exact format.surrounded_pad .left _

/-- Without the zero flag a number is put into its field as it is, to the right unless the format
says otherwise. -/
theorem surrounded_number {format : Format} (hzero : format.zero = false) (x : Binary64) :
    Surrounded (format.align.getD .right) format.width (text format.bare (.number x))
      (text format (.number x)) := by
  show Surrounded _ _ (x.text format.bare) (x.text format)
  rw [x.text_bare, x.text_eq_number, Format.number_of_not_zero hzero]
  exact format.surrounded_pad .right _

/-- The text of a boolean or a number is as long as its field. -/
theorem length_text (format : Format) {value : Value} (hnil : value ≠ .nil) :
    (value.text format).length = max format.width (value.text format.bare).length := by
  cases value with
  | nil => exact absurd rfl hnil
  | bool b =>
      show (format.word _).length = max format.width (format.bare.word _).length
      rw [format.word_eq_pad, format.length_pad]
  | number x =>
      show (x.text format).length = max format.width (x.text format.bare).length
      rw [x.text_bare, x.text_eq_number, format.length_number, List.length_append]

/-- A format may give a value a field, and the text of the value is the same in it, but for what
fills the field.

* Nil is always the bare word.
* A boolean and a number take exactly the width, or as many characters as they have without it if
  these are more.
* A boolean, and a number without the zero flag, has blanks around it. Where no alignment is given,
  a boolean is on the left and a number on the right.
* A number with the zero flag has no blanks, whatever the alignment. It begins with the sign that it
  has without a field, and if it is finite then it denotes the same number as it does without one.

The form of a dump makes no difference to the text. The dump of a value is its text in the same
format, and so is what stands for a constant in the dump of a pool. -/
theorem text_in_field (format : Format) :
    text format .nil = "nil".toList
      ∧ (∀ value : Value, value ≠ .nil →
        (value.text format).length = max format.width (value.text format.bare).length)
      ∧ (∀ b, Surrounded (format.align.getD .left) format.width (text format.bare (.bool b))
        (text format (.bool b)))
      ∧ (format.zero = false → ∀ x, Surrounded (format.align.getD .right) format.width
        (text format.bare (.number x)) (text format (.number x)))
      ∧ (format.zero = true → ∀ x,
        ' ' ∉ text format (.number x)
          ∧ (∀ c ∈ "+-".toList, (text format.bare (.number x)).head? = some c →
            (text format (.number x)).head? = some c)
          ∧ (x.isNaN = false → x.isInfinite = false →
            ∃ q, denoted? (text format (.number x)) = some q
              ∧ denoted? (text format.bare (.number x)) = some q))
      ∧ (∀ (value : Value) alternate, value.text { format with alternate } = value.text format)
      ∧ (∀ value : Value, value.dump format = value.text format)
      ∧ ∀ pool : Pool, pool.item format = .list (pool.values.items.toList.map (text format)) := by
  refine ⟨rfl, fun value hnil => length_text format hnil, surrounded_bool format,
    fun hzero => surrounded_number hzero, fun hzero x => ?_, ?_, fun value => ?_, fun pool => ?_⟩
  · exact ⟨Binary64.blank_not_mem_text hzero, fun c hc => Binary64.head?_text_of_sign hzero hc,
      Binary64.denoted?_text_of_zero hzero⟩
  · intro value alternate
    cases value <;> rfl
  · rw [dump_eq_text]
  · rw [Pool.item, dump_eq_text]

/-- Minus one and a half in a field of eight, filled with zeros. The alignment is of no account. -/
theorem text_in_field_zeros :
    let format : Format := { width := 8, align := some .center, zero := true }
    let x : Binary64 := ⟨0xBFF8000000000000⟩
    format.zero = true ∧ x.isNaN = false ∧ x.isInfinite = false
      ∧ text format (.number x) = "-00001.5".toList
      ∧ text format.bare (.number x) = "-1.5".toList
      ∧ ∃ q, denoted? (text format (.number x)) = some q
        ∧ denoted? (text format.bare (.number x)) = some q := by
  intro format x
  exact ⟨rfl, by decide, by decide, by decide +kernel, by decide +kernel,
    ((text_in_field format).2.2.2.2.1 rfl x).2.2 (by decide) (by decide)⟩

end Value

end Bytecode
