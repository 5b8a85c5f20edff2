import Bytecode.Proofs.Memory.Capacity
import Bytecode.Proofs.Pool.View

/-!
# `Bytecode.Proofs.Pool.Capacity`: the capacity of a pool

The capacity of a pool is the one for its length, after every run of commands. `extent_push` is
the step: an accepted constant leaves the pool with one element and the capacity for it more,
and a refused one leaves both.
-/

set_option autoImplicit false

namespace Bytecode.Pool

variable {settings : Settings} {pool : Pool}

/-- How full a pool is after a constant has been offered to it. -/
theorem extent_push (sound : pool.Sound) (governs : settings.growth.Governs pool.extent)
    (value : Value) :
    (pool.push settings value).state.extent
      = settings.growth.extentAfter pool.extent (pool.push settings value).result := by
  have hseen := push_seen settings sound value
  have hextent : pool.visible.extent = pool.extent := rfl
  unfold Visible.push at hseen
  rw [hextent] at hseen
  cases hroom : settings.growth.room .whole .value pool.extent with
  | ok capacity =>
      rw [hroom] at hseen
      obtain ⟨hresult, hvisible⟩ := Prod.mk.inj hseen
      obtain rfl := governs.room hroom
      rw [hresult]
      exact congrArg Visible.extent hvisible
  | error fault =>
      rw [hroom] at hseen
      obtain ⟨hresult, hvisible⟩ := Prod.mk.inj hseen
      rw [hresult]
      exact congrArg Visible.extent hvisible

variable (settings)

/-- Every command leaves a pool with the capacity for its length. -/
theorem governs_perform (sound : pool.Sound) (governs : settings.growth.Governs pool.extent)
    (command : Command) : settings.growth.Governs (pool.perform settings command).state.extent := by
  cases command with
  | push value =>
      show settings.growth.Governs (pool.push settings value).state.extent
      rw [extent_push sound governs]
      exact governs.extentAfter _
  | release => exact rfl
  | _ => exact governs

/-- Every pool that a run reaches has the capacity for its length. -/
theorem governs_reached (commands : List Command) :
    settings.growth.Governs (reached settings commands).extent :=
  (@Outcome.stateAfter_induction _ _ _ (perform settings) .empty
    (fun pool => pool.Sound ∧ settings.growth.Governs pool.extent)
    ⟨sound_empty, rfl⟩
    (fun _ command h =>
      ⟨sound_perform settings h.1 command, governs_perform settings h.1 h.2 command⟩)
    commands).2

end Bytecode.Pool
