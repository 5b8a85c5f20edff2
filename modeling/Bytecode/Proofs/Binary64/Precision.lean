import Bytecode.Proofs.Binary64.Text

/-!
# `Bytecode.Proofs.Binary64.Precision`: numbers with a number of places

A format with a precision asks for so many digits after the point. They are those of the exact
magnitude, rounded to the nearest and to even where two are as near: the magnitude times the power
of ten is a rational number, and `text_rounded` says that the text is that of the nearest integer,
with the point put back in.

The sign is that of the number and has no part in the rounding, so a negative number that rounds to
zero still has it.
-/

set_option autoImplicit false

namespace Bytecode.Binary64

example : Value.text { precision := some 1 } (.number ⟨0x4023FAE147AE147B⟩) = "10.0".toList := by
  decide +kernel

end Bytecode.Binary64
