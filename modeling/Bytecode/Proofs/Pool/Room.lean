import Bytecode.Pool.Basic
import Bytecode.Proofs.Memory.Room
import Bytecode.Proofs.Run

/-!
# `Bytecode.Proofs.Pool.Room`: room in a pool

A pool counts its capacity beside the storage of its values, and grows by the one before it
stores into the other. `Sound` says that the storage serves the capacity.

* `makeRoom_cases` lists all that making room in a sound pool can come to: there was room, or
  the pool was full and has grown, or the growth was refused and nothing has changed.
* `push_cases`: an accepted constant is stored into a sound pool with a free place behind the
  constants that were there, and a refused one leaves the pool as it was.
* `push_granted` says what adding a constant comes to where memory is not refused.
-/

set_option autoImplicit false

namespace Bytecode.Pool

/-- The storage of the pool serves the capacity that the pool counts. -/
def Sound (pool : Pool) : Prop := pool.values.Backs .whole pool.capacity

/-- Storing adds one constant. -/
@[simp] theorem size_store (pool : Pool) (value : Value) :
    (pool.store value).size = pool.size + 1 :=
  Buffer.size_store pool.values value

/-- The pool without constants is sound. -/
theorem sound_empty : empty.Sound := Buffer.backs_empty

/-- The pool after a growth to a capacity. -/
def widen (pool : Pool) (capacity : Nat) : Pool := ⟨pool.values.widen capacity, capacity⟩

variable {pool : Pool} (settings : Settings)

/-- A growth of a sound pool: granted exactly if the capacity can be addressed, and otherwise
without any effect. -/
theorem growTo_eq (sound : pool.Sound) (n : Nat) :
    pool.growTo settings n
      = if n * ElementKind.value.bytes ≤ Heap.whole.limit then
          ⟨.ok (), pool.widen n, settings.note (.reserved .value n)⟩
        else .refuse pool (.outOfMemory n) := by
  unfold growTo
  rw [Buffer.reserve_eq settings sound]
  show _ = if n * (Element.kind Value).bytes ≤ Heap.whole.limit then _ else _
  split
  · rw [Outcome.within, Outcome.andThen_ok_ok]
    rfl
  · rfl

/-- All that making room in a sound pool can come to. -/
theorem makeRoom_cases (sound : pool.Sound) :
    (pool.size < pool.capacity ∧ pool.makeRoom settings = .ok pool ())
      ∨ (pool.size = pool.capacity
        ∧ ∃ n, settings.growth.grant .whole .value pool.capacity = .ok n
          ∧ pool.makeRoom settings
            = ⟨.ok (), pool.widen n, settings.note (.reserved .value n)⟩)
      ∨ (pool.size = pool.capacity
        ∧ ∃ fault, settings.growth.grant .whole .value pool.capacity = .error fault
          ∧ pool.makeRoom settings = .refuse pool fault) := by
  rcases Nat.lt_or_eq_of_le sound.size_le with room | full
  · exact .inl ⟨room, if_neg (Nat.ne_of_lt room)⟩
  · -- A full pool asks the policy for a capacity, and memory for storage of it.
    right
    have hroom : pool.makeRoom settings
        = (Outcome.read pool (settings.growth.next pool.capacity)).andThen (growTo settings) :=
      if_pos full
    rw [hroom]
    unfold Growth.grant
    cases settings.growth.next pool.capacity with
    | error fault => exact .inr ⟨full, fault, rfl, rfl⟩
    | ok n =>
        have hgrow : (Outcome.read pool (.ok n)).andThen (growTo settings)
            = pool.growTo settings n := rfl
        rw [hgrow, growTo_eq settings sound]
        by_cases hfits : n * ElementKind.value.bytes ≤ Heap.whole.limit
        · exact .inl ⟨full, n, if_pos hfits, if_pos hfits⟩
        · exact .inr ⟨full, .outOfMemory n, if_neg hfits, if_neg hfits⟩

/-- Adding a constant to a sound pool. If it is accepted then the pool it is stored into is
sound, has a free place and holds the constants that were there. If it is refused then the pool
is as it was. -/
theorem push_cases (sound : pool.Sound) (value : Value) :
    (∃ room log, pool.makeRoom settings = ⟨.ok (), room, log⟩
        ∧ pool.push settings value = ⟨.ok (), room.store value, log⟩
        ∧ room.Sound ∧ room.size < room.capacity ∧ room.values.items = pool.values.items)
      ∨ ∃ fault, pool.makeRoom settings = .refuse pool fault
          ∧ pool.push settings value = .refuse pool fault := by
  unfold push
  rcases makeRoom_cases settings sound with
    ⟨room, heq⟩ | ⟨full, n, hgrant, heq⟩ | ⟨_, fault, _, heq⟩
  · rw [heq]
    exact .inl ⟨pool, [], rfl, rfl, sound, room, rfl⟩
  · -- The pool has grown, and the places after those that were taken are free.
    obtain ⟨hlt, hfits⟩ := Growth.grant_eq_ok hgrant
    rw [heq]
    refine .inl ⟨pool.widen n, _, rfl, ?_, sound.widen (Nat.le_of_lt hlt) hfits, ?_, rfl⟩
    · rw [Outcome.andThen_ok_ok]
    · show pool.size < n
      omega
  · rw [heq]
    exact .inr ⟨fault, rfl, rfl⟩

/-- Adding a constant to a sound pool, unless memory is refused: it is stored into the pool as it
is, or into the pool after a growth, which is logged. -/
theorem push_granted (sound : pool.Sound) {value : Value}
    (granted : (pool.push settings value).Granted) :
    pool.push settings value = .ok (pool.store value) ()
      ∨ ∃ n, pool.capacity < n
        ∧ pool.push settings value
          = ⟨.ok (), (pool.widen n).store value, settings.note (.reserved .value n)⟩ := by
  unfold push at granted ⊢
  rcases makeRoom_cases settings sound with ⟨-, heq⟩ | ⟨-, n, hgrant, heq⟩ | ⟨-, fault, hgrant, heq⟩
  · rw [heq]
    exact .inl rfl
  · rw [heq, Outcome.andThen_ok_ok]
    exact .inr ⟨n, (Growth.grant_eq_ok hgrant).1, rfl⟩
  · obtain ⟨requested, rfl⟩ := Growth.grant_eq_error hgrant
    rw [heq] at granted
    exact absurd rfl (granted requested)

/-- Storing into a free place keeps a pool sound. -/
theorem Sound.store (sound : pool.Sound) (room : pool.size < pool.capacity) (value : Value) :
    (pool.store value).Sound :=
  Buffer.Backs.store sound room value

/-- A pool is sound after adding a constant, accepted or not. -/
theorem Sound.push (sound : pool.Sound) (value : Value) :
    (pool.push settings value).state.Sound := by
  rcases push_cases settings sound value with
    ⟨room, log, -, heq, hsound, hroom, -⟩ | ⟨fault, -, heq⟩
  · rw [heq]
    exact hsound.store hroom value
  · rw [heq]
    exact sound

end Bytecode.Pool
