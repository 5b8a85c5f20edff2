import Bytecode.Memory.Batch
import Bytecode.Memory.Buffer

/-!
# `Bytecode.Proofs.Memory.Room`: room in a buffer

A pool and a chunk count a capacity of their own and keep their elements in buffers behind it.
`Buffer.Backs` says that a buffer can serve such a capacity: the elements do not exceed it, the
storage covers it, and the heap has as much. Under it the three cases of `Buffer.reserve` come
down to two (`reserve_eq`): the request is granted exactly if it is for no more bytes than the heap
has, and then the buffer is wider and otherwise the same.

* `Growth.grant` is the capacity that a full store moves to, or why it cannot. It depends on the
  heap, the capacity and the kind of the elements only, and not on what happens to be reserved.
  `Growth.room` says the same of any store that is asked for room for one more element.
* `Backs.widen`, `Backs.spare` and `Backs.store` say which steps keep a capacity backed: moving
  to a greater one, reserving storage ahead of it, and storing below it.
-/

set_option autoImplicit false

namespace Bytecode

namespace Growth

/-- The capacity that a full store of elements of a kind moves to, or why it cannot: the policy
names no machine word, or the heap does not have the capacity that it names. -/
def grant (growth : Growth) (heap : Heap) (kind : ElementKind) (capacity : Nat) :
    Except Fault Nat :=
  match growth.next capacity with
  | .ok n => if n * kind.bytes ≤ heap.limit then .ok n else .error (.outOfMemory n)
  | .error fault => .error fault

/-- The capacity of a store once there is room for one more element, or why there cannot be: a
store that is not full keeps its capacity. -/
def room (growth : Growth) (heap : Heap) (kind : ElementKind) (extent : Extent) :
    Except Fault Nat :=
  if extent.length = extent.capacity then growth.grant heap kind extent.capacity
  else .ok extent.capacity

/-- A growth is to a greater capacity. -/
theorem lt_of_next {growth : Growth} {capacity n : Nat} (h : growth.next capacity = .ok n) :
    capacity < n := by
  have hmin : minCapacity = 8 := rfl
  -- Below the smallest capacity the growth is to that, and from there on the policy raises.
  unfold next at h
  split at h
  · obtain rfl : minCapacity = n := Except.ok.inj h
    assumption
  · split at h
    · obtain rfl : growth.raise capacity = n := Except.ok.inj h
      cases growth <;> simp only [raise] <;> omega
    · nomatch h

section Grant

variable {growth : Growth} {heap : Heap} {kind : ElementKind} {capacity : Nat}

/-- A granted capacity is greater than the one before, and the heap has it. -/
theorem grant_eq_ok {n : Nat} (h : growth.grant heap kind capacity = .ok n) :
    capacity < n ∧ n * kind.bytes ≤ heap.limit := by
  unfold grant at h
  split at h
  · rename_i m hnext
    split at h
    · rename_i hfits
      obtain rfl : m = n := Except.ok.inj h
      exact ⟨lt_of_next hnext, hfits⟩
    · nomatch h
  · nomatch h

/-- What a store is refused is memory. -/
theorem grant_eq_error {fault : Fault} (h : growth.grant heap kind capacity = .error fault) :
    ∃ requested, fault = .outOfMemory requested := by
  unfold grant next at h
  split at h
  · split at h
    · nomatch h
    · exact ⟨_, (Except.error.inj h).symm⟩
  · rename_i fault' hnext
    obtain rfl : fault' = fault := Except.error.inj h
    split at hnext
    · nomatch hnext
    · split at hnext
      · nomatch hnext
      · exact ⟨_, (Except.error.inj hnext).symm⟩

/-- A store is refused room for one more element exactly if it is full, and any capacity that the
policy names would take more bytes than the heap has. -/
theorem room_eq_error_iff {extent : Extent} :
    (∃ fault, growth.room heap kind extent = .error fault)
      ↔ extent.length = extent.capacity
        ∧ ∀ n, growth.next extent.capacity = .ok n → heap.limit < n * kind.bytes := by
  unfold room grant
  by_cases full : extent.length = extent.capacity
  · rw [if_pos full]
    cases growth.next extent.capacity with
    | error fault => simp [full]
    | ok n =>
        by_cases hfits : n * kind.bytes ≤ heap.limit
        · simp [hfits, full]
        · have hlimit : heap.limit < n * kind.bytes := Nat.lt_of_not_le hfits
          simp [hfits, full, hlimit]
  · simp [full]

end Grant

end Growth

/-- Elements that take memory. A buffer of them has room for as many as have been reserved. -/
class Sized (α : Type) [Element α] : Prop where
  bytes_pos : 0 < (Element.kind α).bytes

instance : Sized UInt8 := ⟨by decide⟩

instance : Sized UInt32 := ⟨by decide⟩

instance : Sized Value := ⟨by decide⟩

namespace Buffer

variable {α : Type}

/-- The buffer with storage for at least `n` elements. -/
def widen (buffer : Buffer α) (n : Nat) : Buffer α :=
  { buffer with reserved := max buffer.reserved n }

/-- There is nothing to widen up to what is reserved already. -/
theorem widen_of_le {buffer : Buffer α} {n : Nat} (h : n ≤ buffer.reserved) :
    buffer.widen n = buffer := by
  unfold widen
  rw [Nat.max_eq_left h]

variable [Element α]

/-- The buffer serves a store that counts the given capacity: the elements do not exceed it, the
storage covers it, and the heap has as much. -/
structure Backs (heap : Heap) (buffer : Buffer α) (capacity : Nat) : Prop where
  size_le : buffer.size ≤ capacity
  capacity_le : capacity ≤ buffer.reserved
  granted : buffer.reserved * (Element.kind α).bytes ≤ heap.limit

/-- The empty buffer serves an empty store. -/
theorem backs_empty {heap : Heap} : (empty : Buffer α).Backs heap 0 where
  size_le := Nat.le_refl 0
  capacity_le := Nat.le_refl 0
  granted := by
    show 0 * (Element.kind α).bytes ≤ heap.limit
    rw [Nat.zero_mul]
    exact Nat.zero_le _

namespace Backs

variable {heap : Heap} {buffer : Buffer α} {capacity n : Nat}

/-- A wider buffer serves the same capacity still, as long as the heap has it. -/
theorem spare (backs : buffer.Backs heap capacity)
    (fits : n * (Element.kind α).bytes ≤ heap.limit) : (buffer.widen n).Backs heap capacity where
  size_le := backs.size_le
  capacity_le := Nat.le_trans backs.capacity_le (Nat.le_max_left _ n)
  granted := by
    -- The storage is as before or for `n` elements, and the heap has either.
    rcases Nat.le_total buffer.reserved n with h | h
    · show max buffer.reserved n * (Element.kind α).bytes ≤ heap.limit
      rw [Nat.max_eq_right h]
      exact fits
    · rw [widen_of_le h]
      exact backs.granted

/-- A buffer that has been widened to a greater capacity serves that. -/
theorem widen (backs : buffer.Backs heap capacity) (greater : capacity ≤ n)
    (fits : n * (Element.kind α).bytes ≤ heap.limit) : (buffer.widen n).Backs heap n where
  size_le := Nat.le_trans backs.size_le greater
  capacity_le := Nat.le_max_right _ n
  granted := (backs.spare fits).granted

/-- Storing an element below the capacity keeps it backed. -/
theorem store (backs : buffer.Backs heap capacity) (room : buffer.size < capacity) (element : α) :
    (buffer.store element).Backs heap capacity where
  size_le := by
    rw [size_store]
    exact room
  capacity_le := backs.capacity_le
  granted := backs.granted

end Backs

variable [Sized α] {heap : Heap}

/-- Elements that take memory have room where it has been reserved. -/
theorem capacity_eq_reserved (buffer : Buffer α) : buffer.capacity = buffer.reserved :=
  if_neg (Nat.ne_of_gt Sized.bytes_pos)

/-- A buffer that serves a store has room for the capacity of the store. -/
theorem Backs.le_capacity {buffer : Buffer α} {capacity : Nat}
    (backs : buffer.Backs heap capacity) : capacity ≤ buffer.capacity := by
  rw [capacity_eq_reserved]
  exact backs.capacity_le

/-- A request for room in a buffer that serves a store. It is granted exactly if the heap has as
many bytes, and leaves the buffer wider; otherwise the buffer stays as it is. -/
theorem reserve_eq (settings : Settings) {buffer : Buffer α} {capacity : Nat}
    (backs : buffer.Backs heap capacity) (n : Nat) :
    buffer.reserve heap settings n
      = if n * (Element.kind α).bytes ≤ heap.limit then
          ⟨.ok (), buffer.widen n, settings.note (.reserved (Element.kind α) n)⟩
        else .refuse buffer (.outOfMemory n) := by
  have hsize : buffer.size ≤ buffer.reserved := Nat.le_trans backs.size_le backs.capacity_le
  unfold reserve
  rw [capacity_eq_reserved]
  by_cases h : n ≤ buffer.reserved
  · -- There is room already, and the heap has what is reserved.
    have hfits : n * (Element.kind α).bytes ≤ heap.limit :=
      Nat.le_trans (Nat.mul_le_mul_right _ h) backs.granted
    rw [if_pos (Nat.sub_le_sub_right h _), if_pos hfits, widen_of_le h]
  · -- The request is for the elements that are there and those that are missing: `n` in all.
    have hsum : buffer.size + (n - buffer.size) = n := by omega
    rw [if_neg (by omega), hsum]
    by_cases hfits : n * (Element.kind α).bytes ≤ heap.limit
    · rw [if_pos hfits, if_neg (by omega)]
      unfold widen
      rw [Nat.max_eq_right (by omega)]
    · rw [if_neg hfits, if_pos (by omega)]

end Buffer

end Bytecode
