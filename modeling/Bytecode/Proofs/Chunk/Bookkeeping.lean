import Bytecode.Chunk.Command
import Bytecode.Proofs.Chunk.Room
import Bytecode.Proofs.Run

/-!
# `Bytecode.Proofs.Chunk.Bookkeeping`: a chunk always has the room it counts on

Storing does not ask for room: a byte, its line and a constant are stored on the word of the
capacity that the chunk and its pool count. This file proves that word good after every run of
commands, under every policy, and also where growths have been refused on the way.

`sound_perform` is the step: no command leaves a sound chunk unsound. `sound_reached` is the
run, and `storage_covers_reached` says what follows for the three places where something is
stored: the buffer has a free place, the bytes and lines stay equally many, and the pool is
not empty when the index of its last constant is computed.
-/

set_option autoImplicit false

namespace Bytecode.Chunk

/-- The chunk after a run of commands on the empty one. -/
def reached (settings : Settings) (commands : List Command) : Chunk :=
  Outcome.stateAfter (perform settings) .empty commands

variable (settings : Settings)

/-- The last command of a run acts on the chunk that the commands before it reached. -/
theorem reached_concat (commands : List Command) (command : Command) :
    reached settings (commands ++ [command])
      = ((reached settings commands).perform settings command).state :=
  Outcome.stateAfter_concat (perform settings) .empty commands command

/-- Adding a byte keeps a chunk sound, whether it is accepted or not. -/
theorem Sound.push {chunk : Chunk} (sound : chunk.Sound) (byte : UInt8) (line : UInt32) :
    (chunk.push settings byte line).state.Sound := by
  rcases push_cases settings sound byte line with
    ⟨room, log, -, heq, hsound, hroom, -⟩ | ⟨fault, n, log, -, heq, hsound⟩
  · rw [heq]
    exact hsound.store hroom byte line
  · rw [heq]
    exact hsound

/-- Adding a constant keeps a chunk sound, whether it is accepted or not. -/
theorem Sound.pushConstant {chunk : Chunk} (sound : chunk.Sound) (value : Value) :
    (chunk.pushConstant settings value).state.Sound := by
  rcases pushConstant_cases settings sound value with
    ⟨constants, log, heq, hsound, -⟩ | ⟨fault, heq⟩
  · rw [heq]
    exact ⟨sound.code, sound.lines, sound.aligned, hsound⟩
  · rw [heq]
    exact sound

/-- No command leaves a sound chunk unsound. The commands that read leave the chunk itself. -/
theorem sound_perform {chunk : Chunk} (sound : chunk.Sound) (command : Command) :
    (chunk.perform settings command).state.Sound := by
  cases command with
  | push byte line => exact sound.push settings byte line
  | pushOpcode opcode line => exact sound.push settings opcode.toByte line
  | pushConstant value => exact sound.pushConstant settings value
  | release =>
      show (chunk.release settings).state.Sound
      rw [state_release]
      exact sound_empty
  | _ => exact sound

/-- Every chunk that a run reaches is sound. -/
theorem sound_reached (commands : List Command) : (reached settings commands).Sound :=
  Outcome.stateAfter_induction (perform settings) .empty sound_empty
    (fun _ command sound => sound_perform settings sound command) commands

/-- What a chunk counts on, after any run of commands. The code and the lines have equally many
elements, no more than the capacity, and the storage of each covers the capacity. The same
holds of the constants. The storage is what a release reports: the entries that it logs name
these very numbers.

An accepted byte is stored with its line into a chunk whose code and lines each have a free
place, and leaves equally many of both. An accepted constant is stored into a pool with a free
place, and leaves one at least, so the last one has an index. -/
theorem storage_covers_reached (commands : List Command) :
    let chunk := reached settings commands
    (chunk.code.size = chunk.lines.size
      ∧ chunk.lines.size ≤ chunk.capacity
      ∧ chunk.capacity ≤ chunk.code.capacity
      ∧ chunk.capacity ≤ chunk.lines.capacity
      ∧ chunk.constants.values.size ≤ chunk.constants.capacity
      ∧ chunk.constants.capacity ≤ chunk.constants.values.capacity)
    ∧ (chunk.release { settings with logging := true }).log
        = [.released .byte chunk.code.capacity, .released .line chunk.lines.capacity,
            .released .value chunk.constants.values.capacity]
    ∧ (∀ byte line after log, chunk.push settings byte line = ⟨.ok (), after, log⟩ →
        ∃ room, chunk.makeRoom settings = ⟨.ok (), room, log⟩
          ∧ after = room.store byte line
          ∧ room.code.size < room.code.capacity
          ∧ room.lines.size < room.lines.capacity
          ∧ after.code.size = after.lines.size)
    ∧ ∀ value after log, chunk.constants.push settings value = ⟨.ok (), after, log⟩ →
        ∃ room, chunk.constants.makeRoom settings = ⟨.ok (), room, log⟩
          ∧ after = room.store value
          ∧ room.values.size < room.values.capacity
          ∧ 1 ≤ after.size := by
  intro chunk
  have sound : chunk.Sound := sound_reached settings commands
  refine ⟨⟨sound.aligned.symm, sound.lines.size_le, sound.code.le_capacity,
    sound.lines.le_capacity, sound.constants.size_le, sound.constants.le_capacity⟩, rfl, ?_, ?_⟩
  · -- A byte: the chunk that has been made room in is the one that it is stored into.
    intro byte line after log hpush
    rcases push_cases settings sound byte line with
      ⟨room, log', hroom, heq, hsound, hlt, -⟩ | ⟨fault, n, log', -, heq, -⟩
    · obtain ⟨-, rfl, rfl⟩ := Outcome.mk.injEq .. ▸ heq.symm.trans hpush
      have hlines : room.lines.size < room.capacity := by
        rw [hsound.aligned]
        exact hlt
      exact ⟨room, hroom, rfl, Nat.lt_of_lt_of_le hlt hsound.code.le_capacity,
        Nat.lt_of_lt_of_le hlines hsound.lines.le_capacity,
        (hsound.store hlt byte line).aligned.symm⟩
    · rw [heq] at hpush
      nomatch hpush
  · -- A constant: the same of the pool, which then holds one more than before.
    intro value after log hpush
    rcases Pool.push_cases settings sound.constants value with
      ⟨room, log', hroom, heq, hsound, hlt, -⟩ | ⟨fault, -, heq⟩
    · obtain ⟨-, rfl, rfl⟩ := Outcome.mk.injEq .. ▸ heq.symm.trans hpush
      have hone : 1 ≤ (room.values.store value).size := by
        rw [Buffer.size_store]
        omega
      exact ⟨room, hroom, rfl, Nat.lt_of_lt_of_le hlt hsound.le_capacity, hone⟩
    · rw [heq] at hpush
      nomatch hpush

end Bytecode.Chunk
