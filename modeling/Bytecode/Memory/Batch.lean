import Bytecode.Memory.Outcome

/-!
# `Bytecode.Memory.Batch`: many appends in a row

`Outcome.each` carries out one operation for every item of a list, in order, and notes where
the capacity moved: the length and the capacity right after each operation that changed the
capacity. It stops at the first fault.
-/

set_option autoImplicit false

namespace Bytecode

/-- How full a growable sequence is: the number of its elements, and the number of elements that
it holds without growing. -/
structure Extent where
  length : Nat
  capacity : Nat
  deriving DecidableEq

namespace Outcome

variable {σ α β : Type}

/-- Carries out `step` for each item in order, from a state with the growths and the log entries
so far. -/
def eachFrom (step : σ → α → Outcome σ β) (extent : σ → Extent) :
    List α → σ → Array Extent → Array MemoryEvent → Outcome σ (List Extent)
  | [], state, growths, log => ⟨.ok growths.toList, state, log.toList⟩
  | item :: items, state, growths, log =>
      let before := (extent state).capacity
      match step state item with
      | ⟨.error fault, state, entries⟩ => ⟨.error fault, state, (log ++ entries).toList⟩
      | ⟨.ok _, state, entries⟩ =>
          let after := extent state
          eachFrom step extent items state
            (if after.capacity = before then growths else growths.push after) (log ++ entries)

/-- Carries out `step` for each item in order. The result lists the extents after the steps that
changed the capacity. -/
def each (step : σ → α → Outcome σ β) (extent : σ → Extent) (state : σ) (items : List α) :
    Outcome σ (List Extent) :=
  eachFrom step extent items state #[] #[]

end Outcome

end Bytecode
