import Bytecode.Memory.Batch
import Bytecode.Memory.Buffer

/-!
# `Bytecode.Pool.Basic`: the pool of constants

A `Pool` is a sequence of values that only grows at its end, so the index of a value never
changes. Equal values are kept apart. The pool keeps a capacity of its own: it grows when its
length reaches that, and not when the storage behind it is full. The heap behind a pool is the
whole one, so that growing is refused only where no allocation could be large enough.
-/

set_option autoImplicit false

namespace Bytecode

/-- A sequence of constants, in the order of their indices, and the number of constants that it
holds without growing. -/
structure Pool where
  values : Buffer Value
  capacity : Nat

namespace Pool

/-- The pool without constants. Nothing has been reserved for it. -/
def empty : Pool := ⟨.empty, 0⟩

instance : Inhabited Pool := ⟨empty⟩

/-- The number of constants. -/
def size (pool : Pool) : Nat := pool.values.size

/-- There are no constants. -/
def isEmpty (pool : Pool) : Bool := decide (pool.size = 0)

/-- How full the pool is. -/
def extent (pool : Pool) : Extent := ⟨pool.size, pool.capacity⟩

/-- Reserves storage for a new capacity, and moves to it once that has been granted. -/
def growTo (settings : Settings) (pool : Pool) (capacity : Nat) : Outcome Pool Unit :=
  ((pool.values.reserve .whole settings capacity).within fun values => { pool with values }).andThen
    fun pool _ => .ok { pool with capacity } ()

/-- Sees to it that there is room for one more constant, by growing a full pool. -/
def makeRoom (settings : Settings) (pool : Pool) : Outcome Pool Unit :=
  if pool.size = pool.capacity then
    (Outcome.read pool (settings.growth.next pool.capacity)).andThen (growTo settings)
  else
    .ok pool ()

/-- Puts a constant at the end. The caller has seen to the room. -/
def store (pool : Pool) (value : Value) : Pool :=
  { pool with values := pool.values.store value }

/-- Adds a constant at the end, after making room for it. -/
def push (settings : Settings) (pool : Pool) (value : Value) : Outcome Pool Unit :=
  (pool.makeRoom settings).andThen fun pool _ => .ok (pool.store value) ()

/-- Adds constants in order, and reports the extents after the growths. -/
def pushAll (settings : Settings) (pool : Pool) (values : List Value) :
    Outcome Pool (List Extent) :=
  .each (push settings) extent pool values

/-- The constant at an index. -/
def get (pool : Pool) (index : Nat) : Except Fault Value := readAt pool.values.items index

/-- Whether the constants at two indices are equal as values. The first index is looked up
first. -/
def equalAt (pool : Pool) (first second : Nat) : Except Fault Bool := do
  let a ← pool.get first
  let b ← pool.get second
  return a == b

/-- Gives the storage back. The pool is empty afterwards. -/
def release (settings : Settings) (pool : Pool) : Outcome Pool Unit :=
  ((pool.values.release settings).within fun values => { pool with values }).andThen
    fun pool _ => .ok { pool with capacity := 0 } ()

/-- The constants as a list of items, each dumped in the given format. -/
def item (format : Format) (pool : Pool) : Item :=
  .list (pool.values.items.toList.map (Value.dump format))

/-- The constants written out as a list. -/
def dump (format : Format) (pool : Pool) : Text := (pool.item format).render format

end Pool

end Bytecode
