import Bytecode.Proofs.Chunk.View
import Bytecode.Proofs.Pool.Capacity

/-!
# `Bytecode.Proofs.Chunk.Capacity`: the capacities of a chunk

A chunk counts one capacity for its code and its lines, and its pool counts another. Each is the
capacity for its length, after every run of commands and under either policy, also where
commands have been refused on the way: appends keep it so (`extent_push`,
`extent_pushConstant`), and a release begins anew with no elements and no capacity.

So the capacity moves exactly where the closed form does (`capacity_reached`).
-/

set_option autoImplicit false

namespace Bytecode.Chunk

section Step

variable {settings : Settings} {chunk : Chunk}

/-- How full a chunk is after a byte has been offered to it. The pool is not touched. -/
theorem extent_push (sound : chunk.Sound) (governs : settings.growth.Governs chunk.extent)
    (byte : UInt8) (line : UInt32) :
    (chunk.push settings byte line).state.extent
        = settings.growth.extentAfter chunk.extent (chunk.push settings byte line).result
      ∧ (chunk.push settings byte line).state.constants.extent = chunk.constants.extent := by
  have hseen := push_seen settings sound byte line
  have hextent : chunk.visible.extent = chunk.extent := rfl
  unfold Visible.push at hseen
  rw [hextent] at hseen
  cases hroom : settings.growth.room .whole .line chunk.extent with
  | ok capacity =>
      rw [hroom] at hseen
      obtain ⟨hresult, hvisible⟩ := Prod.mk.inj hseen
      obtain rfl := governs.room hroom
      rw [hresult]
      exact ⟨congrArg Visible.extent hvisible, congrArg (·.constants.extent) hvisible⟩
  | error fault =>
      rw [hroom] at hseen
      obtain ⟨hresult, hvisible⟩ := Prod.mk.inj hseen
      rw [hresult]
      exact ⟨congrArg Visible.extent hvisible, congrArg (·.constants.extent) hvisible⟩

/-- How full the pool of a chunk is after a constant has been offered to it. The code is not
touched. -/
theorem extent_pushConstant (sound : chunk.Sound)
    (governs : settings.growth.Governs chunk.constants.extent) (value : Value) :
    (chunk.pushConstant settings value).state.constants.extent
        = settings.growth.extentAfter chunk.constants.extent
            (chunk.pushConstant settings value).result
      ∧ (chunk.pushConstant settings value).state.extent = chunk.extent := by
  have hpool := Pool.extent_push sound.constants governs value
  unfold pushConstant
  -- The pool's own outcome decides both the answer and what the chunk holds afterwards.
  rcases hpushed : chunk.constants.push settings value with ⟨result, constants, log⟩
  rw [hpushed] at hpool
  cases result with
  | ok _ => exact ⟨hpool, rfl⟩
  | error fault => exact ⟨hpool, rfl⟩

end Step

/-- The code and the pool of a chunk have the capacities for their lengths. -/
def Governed (settings : Settings) (chunk : Chunk) : Prop :=
  settings.growth.Governs chunk.extent ∧ settings.growth.Governs chunk.constants.extent

variable (settings : Settings)

/-- Every command leaves a chunk with the capacities for its lengths. -/
theorem governed_perform {chunk : Chunk} (sound : chunk.Sound) (governed : chunk.Governed settings)
    (command : Command) : (chunk.perform settings command).state.Governed settings := by
  obtain ⟨hcode, hconstants⟩ := governed
  have hpush : ∀ byte line, (chunk.push settings byte line).state.Governed settings := by
    intro byte line
    obtain ⟨hextent, hpool⟩ := extent_push sound hcode byte line
    unfold Governed
    rw [hextent, hpool]
    exact ⟨hcode.extentAfter _, hconstants⟩
  cases command with
  | push byte line => exact hpush byte line
  | pushOpcode opcode line => exact hpush opcode.toByte line
  | pushConstant value =>
      obtain ⟨hpool, hextent⟩ := extent_pushConstant sound hconstants value
      show (chunk.pushConstant settings value).state.Governed settings
      unfold Governed
      rw [hextent, hpool]
      exact ⟨hcode, hconstants.extentAfter _⟩
  | release => exact ⟨rfl, rfl⟩
  | _ => exact ⟨hcode, hconstants⟩

/-- Every chunk that a run reaches has the capacities for its lengths. -/
theorem governed_reached (commands : List Command) :
    (reached settings commands).Governed settings :=
  (@Outcome.stateAfter_induction _ _ _ (perform settings) .empty
    (fun chunk => chunk.Sound ∧ chunk.Governed settings)
    ⟨sound_empty, rfl, rfl⟩
    (fun _ command h =>
      ⟨sound_perform settings h.1 command, governed_perform settings h.1 h.2 command⟩)
    commands).2

/-- The capacity is a function of the length, the same one for code and for constants: in every
chunk that a run reaches, for its code and for its pool, and in every pool that is used alone. So
an append moves the capacity exactly if it is accepted at a length at which the capacity for one
more element is another one: under doubling at no elements and at every `8 * 2 ^ k`, and stepwise
at no elements and from eight on. -/
theorem capacity_reached (settings : Settings) :
    (∀ commands,
      let chunk := reached settings commands
      chunk.capacity = settings.growth.capacityFor chunk.size
      ∧ chunk.constants.capacity = settings.growth.capacityFor chunk.constants.size
      ∧ (∀ byte line,
          (chunk.push settings byte line).state.capacity ≠ chunk.capacity
            ↔ (∃ answer, (chunk.push settings byte line).result = .ok answer)
              ∧ settings.growth.IsThreshold chunk.size)
      ∧ (∀ opcode line,
          (chunk.pushOpcode settings opcode line).state.capacity ≠ chunk.capacity
            ↔ (∃ answer, (chunk.pushOpcode settings opcode line).result = .ok answer)
              ∧ settings.growth.IsThreshold chunk.size)
      ∧ ∀ value,
          (chunk.pushConstant settings value).state.constants.capacity ≠ chunk.constants.capacity
            ↔ (∃ answer, (chunk.pushConstant settings value).result = .ok answer)
              ∧ settings.growth.IsThreshold chunk.constants.size)
    ∧ (∀ commands,
      let pool := Pool.reached settings commands
      pool.capacity = settings.growth.capacityFor pool.size
      ∧ ∀ value,
          (pool.push settings value).state.capacity ≠ pool.capacity
            ↔ (∃ answer, (pool.push settings value).result = .ok answer)
              ∧ settings.growth.IsThreshold pool.size)
    ∧ ∀ n, settings.growth.capacityFor (n + 1) ≠ settings.growth.capacityFor n
        ↔ settings.growth.IsThreshold n := by
  refine ⟨?_, ?_, fun n => settings.growth.capacityFor_succ_ne_iff⟩
  · intro commands chunk
    have sound : chunk.Sound := sound_reached settings commands
    obtain ⟨hcode, hconstants⟩ : chunk.Governed settings := governed_reached settings commands
    have hpush : ∀ byte line, (chunk.push settings byte line).state.capacity ≠ chunk.capacity
        ↔ (∃ answer, (chunk.push settings byte line).result = .ok answer)
          ∧ settings.growth.IsThreshold chunk.size := by
      intro byte line
      have hmoves := hcode.moves_iff (chunk.push settings byte line).result
      rw [← (extent_push sound hcode byte line).1] at hmoves
      exact hmoves
    refine ⟨hcode, hconstants, hpush, fun opcode line => hpush opcode.toByte line, ?_⟩
    intro value
    have hmoves := hconstants.moves_iff (chunk.pushConstant settings value).result
    rw [← (extent_pushConstant sound hconstants value).1] at hmoves
    exact hmoves
  · intro commands pool
    have sound : pool.Sound := Pool.sound_reached settings commands
    have governs : settings.growth.Governs pool.extent := Pool.governs_reached settings commands
    refine ⟨governs, ?_⟩
    intro value
    have hmoves := governs.moves_iff (pool.push settings value).result
    rw [← Pool.extent_push sound governs value] at hmoves
    exact hmoves

end Bytecode.Chunk
