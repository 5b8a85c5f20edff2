import Bytecode.Value

/-!
# `Bytecode.Series`: regular runs of bytes and numbers

Runs that are given by a start and a step, for writing many elements at once. Bytes and lines
step within their width: after the greatest comes the least.
-/

set_option autoImplicit false

namespace Bytecode

/-- The `n` pairs of a byte and a line that start at `byte` and `line` and go on in equal
steps. -/
def byteSeries (n : Nat) (byte byteStep : UInt8) (line lineStep : UInt32) :
    List (UInt8 × UInt32) :=
  (List.range n).map fun i =>
    (byte + UInt8.ofNat i * byteStep, line + UInt32.ofNat i * lineStep)

/-- The numbers `start`, `start + 1` and so on, `n` of them. -/
def numberSeries (n start : Nat) : List Value :=
  (List.range n).map fun i => .number (Binary64.ofNat (start + i))

end Bytecode
