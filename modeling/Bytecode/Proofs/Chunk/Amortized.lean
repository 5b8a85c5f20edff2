import Bytecode.Proofs.Chunk.Capacity
import Bytecode.Proofs.Memory.Amortized

/-!
# `Bytecode.Proofs.Chunk.Amortized`: what the growths of a chunk cost

A chunk is two growable sequences: its code, to which bytes and the codes of instructions are
appended, and its pool, to which constants are. A release takes both back to nothing. Under doubling
each goes on as `Doubles` says, whatever the commands to the other do in between, and so does a pool
that is used alone. The bounds of `Amortized` follow for all three (`appends_amortized`).
-/

set_option autoImplicit false

namespace Bytecode

/-- What a command is to a pool that is used alone. -/
def Pool.Command.role : Pool.Command → Role
  | .push _ => .append
  | .release => .release
  | _ => .other

/-- A pool that is used alone grows by doubling. -/
theorem Pool.doubles (logging : Bool) :
    Doubles (Pool.perform ⟨.doubling, logging⟩) Pool.extent Command.role
      fun pool => pool.Sound ∧ Growth.doubling.Governs pool.extent where
  keeps := fun ⟨sound, governs⟩ command =>
    ⟨sound_perform _ sound command, governs_perform ⟨.doubling, logging⟩ sound governs command⟩
  governs := And.right
  after := by
    rintro pool ⟨sound, governs⟩ command
    cases command with
    | push value =>
        have hextent : (pool.push ⟨.doubling, logging⟩ value).state.extent = _ :=
          extent_push sound governs value
        exact hextent.trans (Growth.doubling.extentAfter_map _ _ _).symm
    | release => rfl
    | _ => rfl

namespace Chunk

/-- What a command is to the code of a chunk. -/
def Command.codeRole : Command → Role
  | .push _ _ => .append
  | .pushOpcode _ _ => .append
  | .release => .release
  | _ => .other

/-- What a command is to the pool of a chunk. -/
def Command.poolRole : Command → Role
  | .pushConstant _ => .append
  | .release => .release
  | _ => .other

section Doubles

variable (logging : Bool)

/-- The code of a chunk grows by doubling. A constant leaves it as it is. -/
theorem doubles_code :
    Doubles (perform ⟨.doubling, logging⟩) extent Command.codeRole
      fun chunk => chunk.Sound ∧ chunk.Governed ⟨.doubling, logging⟩ where
  keeps := fun ⟨sound, governed⟩ command =>
    ⟨sound_perform _ sound command, governed_perform _ sound governed command⟩
  governs := fun h => h.2.1
  after := by
    rintro chunk ⟨sound, hcode, hconstants⟩ command
    have hpush : ∀ byte line, extent (chunk.push ⟨.doubling, logging⟩ byte line).state
        = Growth.doubling.extentAfter chunk.extent
            ((chunk.push ⟨.doubling, logging⟩ byte line).result.map fun _ => Answer.done) := by
      intro byte line
      rw [Growth.extentAfter_map]
      exact (extent_push sound hcode byte line).1
    cases command with
    | push byte line => exact hpush byte line
    | pushOpcode opcode line => exact hpush opcode.toByte line
    | pushConstant value => exact (extent_pushConstant sound hconstants value).2
    | release => rfl
    | _ => rfl

/-- The pool of a chunk grows by doubling. A byte of code leaves it as it is. -/
theorem doubles_pool :
    Doubles (perform ⟨.doubling, logging⟩) (fun chunk => chunk.constants.extent) Command.poolRole
      fun chunk => chunk.Sound ∧ chunk.Governed ⟨.doubling, logging⟩ where
  keeps := (doubles_code logging).keeps
  governs := fun h => h.2.2
  after := by
    rintro chunk ⟨sound, hcode, hconstants⟩ command
    cases command with
    | push byte line => exact (extent_push sound hcode byte line).2
    | pushOpcode opcode line => exact (extent_push sound hcode opcode.toByte line).2
    | pushConstant value =>
        have hextent := (extent_pushConstant sound hconstants value).1
        exact hextent.trans (Growth.doubling.extentAfter_map _ _ _).symm
    | release => rfl
    | _ => rfl

end Doubles

/-- Under doubling an append costs two moves at most in the long run, to the code and to the
constants of a chunk, and to a pool that is used alone. In every run from empty, with releases
anywhere in it, the growths have moved at most two elements for each append that was accepted. And
where `k` appends have been accepted since there were no elements, without a release among them, the
capacity has changed once, and as many times more as the least `j` with `k ≤ 8 * 2 ^ j`, and has not
been above the larger of eight and `2 * k - 1`. -/
theorem appends_amortized (logging : Bool) :
    Amortized (perform ⟨.doubling, logging⟩) extent Command.codeRole .empty
      ∧ Amortized (perform ⟨.doubling, logging⟩) (fun chunk => chunk.constants.extent)
          Command.poolRole .empty
      ∧ Amortized (Pool.perform ⟨.doubling, logging⟩) Pool.extent Pool.Command.role .empty := by
  have hsound : empty.Sound ∧ empty.Governed ⟨.doubling, logging⟩ := ⟨sound_empty, rfl, rfl⟩
  exact ⟨(doubles_code logging).amortized hsound rfl, (doubles_pool logging).amortized hsound rfl,
    (Pool.doubles logging).amortized ⟨Pool.sound_empty, rfl⟩ rfl⟩

/-- A byte, a release, and nine more bytes. The ninth finds the chunk full, and its eight elements
move: less than twice ten. The nine have taken two growths, and sixteen is not above seventeen. -/
theorem appends_amortized_nine :
    let before : List Command := [.push 0 1, .release]
    let nine : List Command := List.replicate 9 (.push 0 1)
    let started := Outcome.stateAfter (perform {}) .empty before
    let steps := Outcome.steps (perform {}) .empty (before ++ nine)
    let stretch := Outcome.steps (perform {}) started nine
    Step.moved extent Command.codeRole steps = 8
      ∧ Step.moved extent Command.codeRole steps ≤ 2 * Step.appended Command.codeRole steps
      ∧ Step.appended Command.codeRole steps = 10
      ∧ Step.appended Command.codeRole stretch = 9
      ∧ Step.growths extent stretch = 2
      ∧ (∃ j, IsLeast {j | Step.appended Command.codeRole stretch ≤ 8 * 2 ^ j} j
          ∧ Step.growths extent stretch = 1 + j)
      ∧ (extent (Outcome.stateAfter (perform {}) started nine)).capacity = 16
      ∧ (extent (Outcome.stateAfter (perform {}) started nine)).capacity
          ≤ max 8 (2 * Step.appended Command.codeRole stretch - 1) := by
  intro before nine started steps stretch
  obtain ⟨hmoved, hgrowths⟩ := (appends_amortized false).1
  obtain ⟨hleast, hcapacity⟩ :=
    hgrowths before nine (by decide +kernel) (by decide) (by decide +kernel)
  exact ⟨by decide +kernel, hmoved (before ++ nine), by decide +kernel, by decide +kernel,
    by decide +kernel, hleast, by decide +kernel, hcapacity nine (List.prefix_refl nine)⟩

end Chunk

end Bytecode
