import Bytecode.Proofs.Chunk.View

/-!
# `Bytecode.Proofs.Chunk.Reuse`: a released chunk is as good as a new one

A release takes the buffers, the capacities and the storage of a chunk back to where they
started, whatever the chunk has been through. Nothing of its past is left that a later command
could bring out: not in an answer, not in the capacity at which the next growth comes, and not in
the capacities that the next release reports to the log.

`released_as_new` compares what comes after a release with a run on a new chunk. It speaks of whole
outcomes, which are the answer, the data with its storage, and the entries of the log.
-/

set_option autoImplicit false

namespace Bytecode.Chunk

/-- A released chunk cannot be told from a new one, and a released pool not from a new or default
one. Whatever a run has done before, and whatever was refused in it, every further run has the
same outcomes after a release as from the start: the answers, the data after each command, what
is seen of it, and the entries of the log, as they are written. -/
theorem released_as_new (settings : Settings) :
    (∀ commands further,
      let freed := ((reached settings commands).release settings).state
      Outcome.history (perform settings) freed further
          = Outcome.history (perform settings) .empty further
        ∧ Outcome.history (perform settings) .empty (commands ++ .release :: further)
          = Outcome.history (perform settings) .empty commands
            ++ (.release, (reached settings commands).perform settings .release)
              :: Outcome.history (perform settings) .empty further)
    ∧ (∀ commands further,
      let freed := ((Pool.reached settings commands).release settings).state
      Outcome.history (Pool.perform settings) freed further
          = Outcome.history (Pool.perform settings) .empty further
        ∧ Outcome.history (Pool.perform settings) .empty (commands ++ .release :: further)
          = Outcome.history (Pool.perform settings) .empty commands
            ++ (.release, (Pool.reached settings commands).perform settings .release)
              :: Outcome.history (Pool.perform settings) .empty further)
    ∧ (default : Chunk) = .empty ∧ (default : Pool) = .empty := by
  refine ⟨?_, ?_, rfl, rfl⟩
  · intro commands further freed
    have hfreed : freed = .empty := state_release settings (reached settings commands)
    have hperform : (perform settings (reached settings commands) .release).state = .empty := hfreed
    rw [hfreed]
    exact ⟨rfl, Outcome.history_restart (perform settings) .empty hperform further⟩
  · intro commands further freed
    have hfreed : freed = .empty := Pool.state_release settings (Pool.reached settings commands)
    have hperform : (Pool.perform settings (Pool.reached settings commands) .release).state
        = .empty := hfreed
    rw [hfreed]
    exact ⟨rfl, Outcome.history_restart (Pool.perform settings) .empty hperform further⟩

end Bytecode.Chunk
