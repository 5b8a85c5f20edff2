import Bytecode.Pool.Command
import Bytecode.Proofs.Pool.Room
import Bytecode.Proofs.Run

/-!
# `Bytecode.Proofs.Pool.Bookkeeping`: a pool always has the room it counts on

A pool can be used without a chunk around it. `reached` is the pool after a run of commands on
the empty one, and `sound_reached` says that its storage serves the capacity that it counts,
whatever has been refused on the way.
-/

set_option autoImplicit false

namespace Bytecode.Pool

/-- The pool after a run of commands on the empty one. -/
def reached (settings : Settings) (commands : List Command) : Pool :=
  Outcome.stateAfter (perform settings) .empty commands

/-- A released pool is the empty one, whatever was in it and behind it. -/
theorem state_release (settings : Settings) (pool : Pool) :
    (pool.release settings).state = .empty := rfl

variable (settings : Settings)

/-- No command leaves a sound pool unsound. -/
theorem sound_perform {pool : Pool} (sound : pool.Sound) (command : Command) :
    (pool.perform settings command).state.Sound := by
  cases command with
  | push value => exact sound.push settings value
  | release =>
      show (pool.release settings).state.Sound
      rw [state_release]
      exact sound_empty
  | _ => exact sound

/-- Every pool that a run reaches is sound. -/
theorem sound_reached (commands : List Command) : (reached settings commands).Sound :=
  Outcome.stateAfter_induction (perform settings) .empty sound_empty
    (fun _ command sound => sound_perform settings sound command) commands

end Bytecode.Pool
