/-!
# `Bytecode.Text.Format`: one item in a field

A `Format` says how a single item is written: how wide its field is, where the item stands in
it, and whether it is cut, signed, or filled with zeros. Two kinds of item read a format
differently:

* `Format.word` writes words. A word is cut to the precision, and its blanks stand on the
  right unless an alignment is given.
* `Format.number` writes numbers. A number is never cut, its blanks stand on the left unless an
  alignment is given, and with the zero flag the field is filled with zeros between the sign
  and the digits instead, whatever the alignment.

The field never shortens an item: its width is a lower bound on the length of the text.
-/

set_option autoImplicit false

namespace Bytecode

/-- A text: its characters in order. -/
abbrev Text := List Char

/-- The place of an item in a field that is wider than the item. -/
inductive Alignment where
  | left
  | center
  | right
  deriving DecidableEq

/-- The blanks to the left of an item that leaves `gap` columns of its field free. The rest of
the gap is to its right, so a centered item has the odd blank on its right. -/
def Alignment.leading : Alignment → Nat → Nat
  | .left, _ => 0
  | .center, gap => gap / 2
  | .right, gap => gap

/-- The blanks to the left are part of the gap. -/
theorem Alignment.leading_le (align : Alignment) (gap : Nat) : align.leading gap ≤ gap := by
  cases align <;> simp only [leading] <;> omega

/-- How a single item is written. The empty format `{}` adds nothing to the item. -/
structure Format where
  /-- The least number of characters that the field takes. -/
  width : Nat := 0
  /-- The greatest length of a word, or the number of decimal places of a number. -/
  precision : Option Nat := none
  /-- The place of the item in its field, if it is not the usual one for its kind. -/
  align : Option Alignment := none
  /-- Numbers that are not negative carry a plus sign. -/
  plus : Bool := false
  /-- The fields of numbers are filled with zeros. -/
  zero : Bool := false
  /-- Records and lists are written over several lines. -/
  alternate : Bool := false
  deriving DecidableEq

namespace Format

/-- Puts `text` into its field, with blanks around it. The alignment `usual` holds where the
format names none. -/
def pad (format : Format) (usual : Alignment) (text : Text) : Text :=
  let gap := format.width - text.length
  let leading := (format.align.getD usual).leading gap
  List.replicate leading ' ' ++ text ++ List.replicate (gap - leading) ' '

/-- A field is as long as its width, or as the text in it if that is longer. -/
theorem length_pad (format : Format) (usual : Alignment) (text : Text) :
    (format.pad usual text).length = max format.width text.length := by
  have := (format.align.getD usual).leading_le (format.width - text.length)
  simp only [pad, List.length_append, List.length_replicate]
  omega

/-- Writes a word: the first characters of it that the precision admits, to the left of its
field. -/
def word (format : Format) (text : Text) : Text :=
  format.pad .left ((format.precision.map text.take).getD text)

/-- The sign of a number: a minus if it is negative, and a plus otherwise if the format asks
for one. -/
def sign (format : Format) (negative : Bool) : Text :=
  if negative then ['-'] else if format.plus then ['+'] else []

/-- Writes a number from its sign and its digits, to the right of its field. With the zero
flag, zeros between the two take the place of the blanks. -/
def number (format : Format) (sign digits : Text) : Text :=
  if format.zero then
    sign ++ List.replicate (format.width - (sign.length + digits.length)) '0' ++ digits
  else
    format.pad .right (sign ++ digits)

/-- The text of a number is as long as its field. -/
theorem length_number (format : Format) (sign digits : Text) :
    (format.number sign digits).length = max format.width (sign.length + digits.length) := by
  unfold number
  split
  · simp only [List.length_append, List.length_replicate]
    omega
  · rw [length_pad, List.length_append]

end Format

/-- The decimal digits of a natural number, without superfluous zeros. -/
def numeral (n : Nat) : Text := Nat.toDigits 10 n

/-- Writes a natural number in decimal digits. It has no places for a precision to count. -/
def Format.natural (format : Format) (n : Nat) : Text :=
  format.number (format.sign false) (numeral n)

end Bytecode
