import Bytecode.Binary64.Shortest

/-!
# `Bytecode.Binary64.Text`: how a number is written

A finite number is its sign and a decimal without an exponent: the shortest one that reads
back, or, where the format has a precision, the one rounded to that many places. Infinity is
`inf` with its sign. What is not a number is `NaN`, and never has a sign.
-/

set_option autoImplicit false

namespace Bytecode.Binary64

/-- The decimal that stands for the magnitude of a finite number in the given format. -/
def decimal (format : Format) (x : Binary64) : Decimal :=
  match format.precision with
  | none => x.shortest
  | some places => x.rounded places

/-- The number written in the given format. -/
def text (format : Format) (x : Binary64) : Text :=
  if x.isNaN then
    format.number [] "NaN".toList
  else
    format.number (format.sign x.isNegative)
      (if x.isInfinite then "inf".toList else (x.decimal format).text)

end Bytecode.Binary64
