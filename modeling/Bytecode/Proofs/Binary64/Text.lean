import Bytecode.Proofs.Binary64.Reading
import Bytecode.Proofs.Binary64.Shortest
import Bytecode.Value

/-!
# `Bytecode.Proofs.Binary64.Text`: the text of a number

The text of a finite number is a decimal in positional form that stands for this number and for no
other, with as few significant digits as such a decimal can have, and of those with as few the
nearest (`text_shortest`). The text is the same where the number is written in a dump.

The sign is a matter of the text alone: it is there if the number has one, also on zero. The rest
of the text is the shortest decimal of the magnitude, and reduced.
-/

set_option autoImplicit false

namespace Bytecode.Binary64

/-- A format without a width adds nothing to a number. -/
theorem number_of_width {format : Format} (hwidth : format.width = 0) (sign digits : Text) :
    format.number sign digits = sign ++ digits := by
  have hleading : (format.align.getD .right).leading 0 = 0 :=
    Nat.le_zero.mp (Alignment.leading_le _ 0)
  unfold Format.number Format.pad
  simp [hwidth, hleading]

example : Value.text {} (.number ⟨0x3ff3333333333333⟩) = "1.2".toList := by decide +kernel

example : Value.text {} (.number ⟨0x8000000000000000⟩) = "-0".toList := by decide +kernel

end Bytecode.Binary64
