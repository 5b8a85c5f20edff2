/-!
# `Bytecode.Window`: a part of a sequence

A window names the part of a sequence from one index up to, and without, another. Both are cut
to the sequence: a window that reaches beyond the end shows what there is, and one that starts
after it ends shows nothing.
-/

set_option autoImplicit false

namespace Bytecode

/-- A half-open range of indices. The window `{}` shows everything. -/
structure Window where
  /-- The first index shown. -/
  start : Nat := 0
  /-- The index after the last one shown, if there is one. -/
  stop : Option Nat := none
  deriving DecidableEq

/-- The elements of an array that a window shows. -/
def Window.view {α : Type} (window : Window) (elements : Array α) : List α :=
  (elements.extract window.start (window.stop.getD elements.size)).toList

end Bytecode
