/-!
# `Bytecode.Power`: powers of two and of ten

Binary formats scale by powers of two and decimals by powers of ten. Both come up in every
conversion between the two.
-/

set_option autoImplicit false

namespace Bytecode

/-- Two, multiplied `n` times. -/
def twoPow (n : Nat) : Nat := Nat.pow 2 n

/-- Ten, multiplied `n` times: a one with `n` zeros after it. -/
def tenPow (n : Nat) : Nat := Nat.pow 10 n

end Bytecode
