import Bytecode.Fault

/-!
# `Bytecode.Memory.Growth`: how much a full buffer grows

Capacities are machine words. A buffer below `minCapacity` grows to that; from it on the policy
decides. `doubling` keeps appends cheap on average, and `stepwise` makes room for one more
element only, so that from `minCapacity` elements on every append has to grow.
-/

set_option autoImplicit false

namespace Bytecode

/-- The greatest machine word, `2 ^ 64 - 1`, which bounds every length and capacity. -/
def maxWord : Nat := 0xFFFFFFFFFFFFFFFF

/-- The capacity of a buffer after its first growth. -/
def minCapacity : Nat := 8

/-- The policy by which a full buffer grows: the capacity doubles, or it grows by one. -/
inductive Growth where
  | doubling
  | stepwise
  deriving DecidableEq

namespace Growth

/-- The capacity after a growth from one that is not below `minCapacity`, as a number of any
size. -/
def raise : Growth → Nat → Nat
  | doubling, capacity => 2 * capacity
  | stepwise, capacity => capacity + 1

/-- The capacity that a full buffer of the given capacity grows to. If that is no machine word,
the request counts as one for `maxWord` elements and is refused. -/
def next (growth : Growth) (capacity : Nat) : Except Fault Nat :=
  if capacity < minCapacity then .ok minCapacity
  else if growth.raise capacity ≤ maxWord then .ok (growth.raise capacity)
  else .error (.outOfMemory maxWord)

end Growth

/-- How memory is managed: the growth policy, and whether reservations and releases are
logged. -/
structure Settings where
  /-- The policy by which full buffers grow. -/
  growth : Growth := .doubling
  /-- Reservations and releases are logged. -/
  logging : Bool := false
  deriving DecidableEq

end Bytecode
