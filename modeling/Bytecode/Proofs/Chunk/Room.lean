import Bytecode.Chunk.Basic
import Bytecode.Proofs.Pool.Room

/-!
# `Bytecode.Proofs.Chunk.Room`: room in a chunk

The code and the lines of a chunk are two buffers that serve one capacity, and a growth
reserves for the first before it asks for the second. `Sound` says that both serve the capacity
and hold equally many elements, and that the pool is sound.

A growth that the lines are refused has widened the code already. What is left is the chunk
with spare storage behind its code (`spare`), which is sound as well: soundness asks the
storage to cover the capacity and not to equal it.

* `makeRoom_cases` lists all that making room in a sound chunk can come to.
* `push_cases` says the same of adding a byte, and `pushConstant_cases` of adding a constant.
* `push_granted` and `pushConstant_granted` say what the two come to where memory is not refused.
* `state_release`: a released chunk is the empty one.
-/

set_option autoImplicit false

namespace Bytecode.Chunk

/-- The storage of the code and of the lines serves the capacity that the chunk counts, there
is a line for each byte of code, and the pool is sound. -/
structure Sound (chunk : Chunk) : Prop where
  code : chunk.code.Backs .whole chunk.capacity
  lines : chunk.lines.Backs .whole chunk.capacity
  aligned : chunk.lines.size = chunk.code.size
  constants : chunk.constants.Sound

/-- The empty chunk is sound. -/
theorem sound_empty : empty.Sound where
  code := Buffer.backs_empty
  lines := Buffer.backs_empty
  aligned := rfl
  constants := Pool.sound_empty

/-- The chunk after a growth to a capacity. -/
def widen (chunk : Chunk) (capacity : Nat) : Chunk :=
  { chunk with
    code := chunk.code.widen capacity, lines := chunk.lines.widen capacity, capacity }

/-- The chunk with storage for at least `n` bytes of code, and the same capacity. -/
def spare (chunk : Chunk) (n : Nat) : Chunk := { chunk with code := chunk.code.widen n }

/-- The chunk with one more constant. The caller has seen to the room. -/
def storeConstant (chunk : Chunk) (value : Value) : Chunk :=
  { chunk with constants := chunk.constants.store value }

/-- The chunk after a growth of its pool to a capacity. -/
def widenConstants (chunk : Chunk) (capacity : Nat) : Chunk :=
  { chunk with constants := chunk.constants.widen capacity }

/-- Room for no bytes is there already. -/
theorem spare_zero (chunk : Chunk) : chunk.spare 0 = chunk := by
  unfold spare
  rw [Buffer.widen_of_le (Nat.zero_le _)]

namespace Sound

variable {chunk : Chunk} {n : Nat}

/-- A chunk that has grown to a greater capacity is sound. -/
theorem widen (sound : chunk.Sound) (greater : chunk.capacity < n)
    (fits : n * ElementKind.line.bytes ≤ Heap.whole.limit) : (chunk.widen n).Sound where
  code := sound.code.widen (Nat.le_of_lt greater) (by
    show n * 1 ≤ Heap.whole.limit
    have : n * 4 ≤ Heap.whole.limit := fits
    omega)
  lines := sound.lines.widen (Nat.le_of_lt greater) fits
  aligned := sound.aligned
  constants := sound.constants

/-- Spare storage behind the code leaves a chunk sound. -/
theorem spare (sound : chunk.Sound) (fits : n * ElementKind.byte.bytes ≤ Heap.whole.limit) :
    (chunk.spare n).Sound where
  code := sound.code.spare fits
  lines := sound.lines
  aligned := sound.aligned
  constants := sound.constants

/-- Storing a byte and its line below the capacity keeps a chunk sound. -/
theorem store (sound : chunk.Sound) (room : chunk.size < chunk.capacity) (byte : UInt8)
    (line : UInt32) : (chunk.store byte line).Sound where
  code := sound.code.store room byte
  lines := sound.lines.store (by rw [sound.aligned]; exact room) line
  aligned := by
    show (chunk.lines.store line).size = (chunk.code.store byte).size
    rw [Buffer.size_store, Buffer.size_store, sound.aligned]
  constants := sound.constants

end Sound

/-- A released chunk is the empty one, whatever was in it and behind it. -/
theorem state_release (settings : Settings) (chunk : Chunk) :
    (chunk.release settings).state = .empty := rfl

variable {chunk : Chunk} (settings : Settings)

/-- A growth of a sound chunk. It is granted exactly if memory can hold the lines, which take
more of it than the code. If memory can hold the code only, spare storage is left behind. -/
theorem growTo_eq (sound : chunk.Sound) (n : Nat) :
    chunk.growTo settings n
      = if n * ElementKind.line.bytes ≤ Heap.whole.limit then
          ⟨.ok (), chunk.widen n,
            settings.note (.reserved .byte n) ++ settings.note (.reserved .line n)⟩
        else if n * ElementKind.byte.bytes ≤ Heap.whole.limit then
          ⟨.error (.outOfMemory n), chunk.spare n, settings.note (.reserved .byte n)⟩
        else .refuse chunk (.outOfMemory n) := by
  unfold growTo
  rw [Buffer.reserve_eq settings sound.code]
  show _ = if n * (Element.kind UInt32).bytes ≤ Heap.whole.limit then _
    else if n * (Element.kind UInt8).bytes ≤ Heap.whole.limit then _ else _
  by_cases hcode : n * (Element.kind UInt8).bytes ≤ Heap.whole.limit
  · -- The code is granted, and the lines are asked for in the chunk with wider code.
    have hlines := Buffer.reserve_eq settings sound.lines n
    rw [if_pos hcode, if_pos hcode, Outcome.within, Outcome.andThen_ok]
    show Outcome.mk (((chunk.lines.reserve .whole settings n).within _).andThen _).result
      (((chunk.lines.reserve .whole settings n).within _).andThen _).state
      (settings.note (.reserved .byte n)
        ++ (((chunk.lines.reserve .whole settings n).within _).andThen _).log) = _
    rw [hlines]
    by_cases hfits : n * (Element.kind UInt32).bytes ≤ Heap.whole.limit
    · rw [if_pos hfits, if_pos hfits, Outcome.within, Outcome.andThen_ok]
      show Outcome.mk _ _ (_ ++ (settings.note (.reserved .line n) ++ [])) = _
      rw [List.append_nil]
      rfl
    · rw [if_neg hfits, if_neg hfits]
      show Outcome.mk _ _ (settings.note (.reserved .byte n) ++ []) = _
      rw [List.append_nil]
      rfl
  · -- If memory cannot hold the code then it cannot hold the lines, which take more.
    have hfits : ¬ n * (Element.kind UInt32).bytes ≤ Heap.whole.limit := by
      show ¬ n * 4 ≤ Heap.whole.limit
      have : ¬ n * 1 ≤ Heap.whole.limit := hcode
      omega
    rw [if_neg hcode, if_neg hfits, if_neg hcode]
    rfl

/-- All that making room in a sound chunk can come to. -/
theorem makeRoom_cases (sound : chunk.Sound) :
    (chunk.size < chunk.capacity ∧ chunk.makeRoom settings = .ok chunk ())
      ∨ (chunk.size = chunk.capacity
        ∧ ∃ n, settings.growth.grant .whole .line chunk.capacity = .ok n
          ∧ chunk.makeRoom settings
            = ⟨.ok (), chunk.widen n,
                settings.note (.reserved .byte n) ++ settings.note (.reserved .line n)⟩)
      ∨ (chunk.size = chunk.capacity
        ∧ ∃ fault, settings.growth.grant .whole .line chunk.capacity = .error fault
          ∧ ∃ n log, n * ElementKind.byte.bytes ≤ Heap.whole.limit
            ∧ chunk.makeRoom settings = ⟨.error fault, chunk.spare n, log⟩) := by
  rcases Nat.lt_or_eq_of_le sound.code.size_le with room | full
  · exact .inl ⟨room, if_neg (Nat.ne_of_lt room)⟩
  · -- A full chunk asks the policy for a capacity, and memory for storage of both kinds.
    right
    have hroom : chunk.makeRoom settings
        = (Outcome.read chunk (settings.growth.next chunk.capacity)).andThen (growTo settings) :=
      if_pos full
    -- A refusal without spare storage is one with spare storage for no bytes.
    have hrefuse : ∀ fault,
        (Outcome.refuse chunk fault : Outcome Chunk Unit) = ⟨.error fault, chunk.spare 0, []⟩ :=
      fun fault => by rw [spare_zero]; rfl
    rw [hroom]
    unfold Growth.grant
    cases settings.growth.next chunk.capacity with
    | error fault => exact .inr ⟨full, fault, rfl, 0, [], by decide, hrefuse fault⟩
    | ok n =>
        have hgrow : (Outcome.read chunk (.ok n)).andThen (growTo settings)
            = chunk.growTo settings n := rfl
        rw [hgrow, growTo_eq settings sound]
        by_cases hfits : n * ElementKind.line.bytes ≤ Heap.whole.limit
        · exact .inl ⟨full, n, if_pos hfits, if_pos hfits⟩
        · rw [if_neg hfits]
          refine .inr ⟨full, .outOfMemory n, if_neg hfits, ?_⟩
          by_cases hcode : n * ElementKind.byte.bytes ≤ Heap.whole.limit
          · exact ⟨n, _, hcode, if_pos hcode⟩
          · exact ⟨0, [], by decide, by rw [if_neg hcode, hrefuse]⟩

/-- Adding a byte to a sound chunk. If it is accepted then the chunk it is stored into is
sound, has a free place and shows what was there. If it is refused then the chunk has at most
gained spare storage. -/
theorem push_cases (sound : chunk.Sound) (byte : UInt8) (line : UInt32) :
    (∃ room log, chunk.makeRoom settings = ⟨.ok (), room, log⟩
        ∧ chunk.push settings byte line = ⟨.ok (), room.store byte line, log⟩
        ∧ room.Sound ∧ room.size < room.capacity
        ∧ room.code.items = chunk.code.items ∧ room.lines.items = chunk.lines.items
        ∧ room.constants = chunk.constants)
      ∨ ∃ fault n log, chunk.makeRoom settings = ⟨.error fault, chunk.spare n, log⟩
          ∧ chunk.push settings byte line = ⟨.error fault, chunk.spare n, log⟩
          ∧ (chunk.spare n).Sound := by
  unfold push
  rcases makeRoom_cases settings sound with
    ⟨room, heq⟩ | ⟨full, n, hgrant, heq⟩ | ⟨_, fault, _, n, log, hfits, heq⟩
  · rw [heq]
    exact .inl ⟨chunk, [], rfl, rfl, sound, room, rfl, rfl, rfl⟩
  · -- The chunk has grown, and the places after those that were taken are free.
    obtain ⟨hlt, hfits⟩ := Growth.grant_eq_ok hgrant
    rw [heq]
    refine .inl ⟨chunk.widen n, _, rfl, ?_, sound.widen hlt hfits, ?_, rfl, rfl, rfl⟩
    · rw [Outcome.andThen_ok_ok]
    · show chunk.size < n
      omega
  · rw [heq]
    exact .inr ⟨fault, n, log, rfl, rfl, sound.spare hfits⟩

/-- Where the pool has accepted a constant, the answer is the number of constants that were there.
The index is computed from the pool after the constant has been stored. -/
theorem pushConstant_of_push {room : Pool} {value : Value} {log : List MemoryEvent}
    (heq : chunk.constants.push settings value = ⟨.ok (), room.store value, log⟩)
    (hitems : room.values.items = chunk.constants.values.items) :
    chunk.pushConstant settings value
      = ⟨.ok chunk.constants.size, { chunk with constants := room.store value }, log⟩ := by
  have hsize : room.size = chunk.constants.size := congrArg Array.size hitems
  unfold pushConstant
  rw [heq, Outcome.within, Outcome.andThen_ok_ok, Pool.size_store, Nat.add_sub_cancel, hsize]

/-- Adding a constant to a sound chunk. If it is accepted then the answer is the number of
constants that were there, and the value stands after them. If it is refused then the chunk is
as it was. -/
theorem pushConstant_cases (sound : chunk.Sound) (value : Value) :
    (∃ constants log,
        chunk.pushConstant settings value
          = ⟨.ok chunk.constants.size, { chunk with constants }, log⟩
        ∧ constants.Sound
        ∧ constants.values.items.toList = chunk.constants.values.items.toList ++ [value])
      ∨ ∃ fault, chunk.pushConstant settings value = .refuse chunk fault := by
  rcases Pool.push_cases settings sound.constants value with
    ⟨room, log, -, heq, hsound, hroom, hitems⟩ | ⟨fault, -, heq⟩
  · refine .inl ⟨room.store value, log, pushConstant_of_push settings heq hitems,
      hsound.store hroom value, ?_⟩
    show (room.values.store value).items.toList = _
    rw [Buffer.toList_items_store, hitems]
  · unfold pushConstant
    rw [heq]
    exact .inr ⟨fault, rfl⟩

/-- Adding a byte to a sound chunk, unless memory is refused: it is stored into the chunk as it is,
or into the chunk after a growth, which is logged for the code and then for the lines. -/
theorem push_granted (sound : chunk.Sound) {byte : UInt8} {line : UInt32}
    (granted : (chunk.push settings byte line).Granted) :
    chunk.push settings byte line = .ok (chunk.store byte line) ()
      ∨ ∃ n, chunk.capacity < n
        ∧ chunk.push settings byte line
          = ⟨.ok (), (chunk.widen n).store byte line,
              settings.note (.reserved .byte n) ++ settings.note (.reserved .line n)⟩ := by
  unfold push at granted ⊢
  rcases makeRoom_cases settings sound with
    ⟨-, heq⟩ | ⟨-, n, hgrant, heq⟩ | ⟨-, fault, hgrant, n, log, -, heq⟩
  · rw [heq]
    exact .inl rfl
  · rw [heq, Outcome.andThen_ok_ok]
    exact .inr ⟨n, (Growth.grant_eq_ok hgrant).1, rfl⟩
  · obtain ⟨requested, rfl⟩ := Growth.grant_eq_error hgrant
    rw [heq] at granted
    exact absurd rfl (granted requested)

/-- Adding a constant to a sound chunk, unless memory is refused: the answer is the number of
constants that were there, and the pool has been added to. -/
theorem pushConstant_granted (sound : chunk.Sound) {value : Value}
    (granted : (chunk.pushConstant settings value).Granted) :
    chunk.pushConstant settings value
        = .ok (chunk.storeConstant value) chunk.constants.size
      ∨ ∃ n, chunk.constants.capacity < n
        ∧ chunk.pushConstant settings value
          = ⟨.ok chunk.constants.size, (chunk.widenConstants n).storeConstant value,
              settings.note (.reserved .value n)⟩ := by
  have hpool : (chunk.constants.push settings value).Granted := granted.of_andThen
  rcases Pool.push_granted settings sound.constants hpool with heq | ⟨n, hlt, heq⟩
  · exact .inl (pushConstant_of_push settings heq rfl)
  · exact .inr ⟨n, hlt, pushConstant_of_push settings heq rfl⟩

end Bytecode.Chunk
