import Mathlib.Data.List.Infix
import Bytecode.Proofs.Memory.Capacity
import Bytecode.Proofs.Run

/-!
# `Bytecode.Proofs.Memory.Amortized`: what growing costs in the long run

A growth moves the elements that are there. Under doubling the moves of a run are paid for by its
appends, two moves by each (`Amortized.moved_le`), and from empty on the number of growths is the
number of doublings from eight that it takes to cover the elements (`Amortized.growths`).

* `Step` and `steps` are a run with the data before each command, on which the costs are counted.
* `Doubles` says how the extent of a sequence goes on: an accepted append takes it to one element
  more and the capacity for it, a release to nothing, and every other command leaves it.
* `Paid` and `Doubled` are the two invariants, each with its step: the first is kept by a whole run,
  the second by a stretch of it without a release.
* `Doubles.amortized` draws the bounds from them.
-/

set_option autoImplicit false

namespace Bytecode

/-! ### Steps -/

/-- A step of a run: the data before it, the command, and what that came to. -/
structure Step (σ κ α : Type) where
  before : σ
  command : κ
  outcome : Outcome σ α

/-- What a command is to a growable sequence. -/
inductive Role where
  /-- It puts an element at the end, if it is accepted. -/
  | append
  /-- It gives the storage back. -/
  | release
  /-- It leaves the sequence as it is. -/
  | other
  deriving DecidableEq

namespace Step

variable {σ κ α : Type}

/-- The step is an append that was accepted. -/
def accepted (role : κ → Role) (step : Step σ κ α) : Bool :=
  decide (role step.command = .append) && step.outcome.result.isOk

/-- The step has changed the capacity. -/
def grows (extent : σ → Extent) (step : Step σ κ α) : Bool :=
  decide ((extent step.outcome.state).capacity ≠ (extent step.before).capacity)

/-- The number of accepted appends. -/
def appended (role : κ → Role) (steps : List (Step σ κ α)) : Nat := steps.countP (accepted role)

/-- The number of changes of the capacity. -/
def growths (extent : σ → Extent) (steps : List (Step σ κ α)) : Nat := steps.countP (grows extent)

/-- The number of elements that growths have moved: for each accepted append that has changed the
capacity, those that were there before it. -/
def moved (extent : σ → Extent) (role : κ → Role) (steps : List (Step σ κ α)) : Nat :=
  ((steps.filter fun step => step.accepted role && step.grows extent).map
    fun step => (extent step.before).length).sum

section Concat

variable (extent : σ → Extent) (role : κ → Role) (steps : List (Step σ κ α)) (step : Step σ κ α)

theorem appended_concat :
    appended role (steps ++ [step]) = appended role steps + (step.accepted role).toNat := by
  unfold appended
  rw [List.countP_append]
  cases h : step.accepted role <;> simp [h]

theorem growths_concat :
    growths extent (steps ++ [step]) = growths extent steps + (step.grows extent).toNat := by
  unfold growths
  rw [List.countP_append]
  cases h : step.grows extent <;> simp [h]

theorem moved_concat :
    moved extent role (steps ++ [step])
      = moved extent role steps
        + if step.accepted role && step.grows extent then (extent step.before).length else 0 := by
  unfold moved
  rw [List.filter_append]
  cases h : step.accepted role && step.grows extent <;> simp [h]

end Concat

end Step

namespace Outcome

variable {σ κ α : Type} (perform : σ → κ → Outcome σ α)

/-- The step that a command takes from the data. -/
def step (state : σ) (command : κ) : Step σ κ α := ⟨state, command, perform state command⟩

@[simp] theorem step_before (state : σ) (command : κ) :
    (step perform state command).before = state := rfl

/-- A step grows a sequence if it takes it to another capacity. -/
@[simp] theorem step_grows (extent : σ → Extent) (state : σ) (command : κ) :
    (step perform state command).grows extent
      = decide ((extent (perform state command).state).capacity ≠ (extent state).capacity) := rfl

/-- The steps of a run, in order. -/
def steps (state : σ) : List κ → List (Step σ κ α)
  | [] => []
  | command :: commands =>
      step perform state command :: steps (perform state command).state commands

/-- The steps of a run of two parts are those of the first part, and after them those of the second
from where the first ended. -/
theorem steps_append (state : σ) (first second : List κ) :
    steps perform state (first ++ second)
      = steps perform state first ++ steps perform (stateAfter perform state first) second := by
  induction first generalizing state with
  | nil => rfl
  | cons command commands ih =>
      rw [List.cons_append, steps, steps, List.cons_append, ih]
      rfl

/-- The last step of a run is that of the last command on the data before it. -/
theorem steps_concat (state : σ) (commands : List κ) (command : κ) :
    steps perform state (commands ++ [command])
      = steps perform state commands
        ++ [step perform (stateAfter perform state commands) command] :=
  steps_append perform state commands [command]

end Outcome

/-! ### Doubling -/

namespace Growth

/-- One more element takes the capacity that there is, or the first one, or double the capacity. -/
theorem capacityFor_succ_cases (n : Nat) :
    doubling.capacityFor (n + 1) = doubling.capacityFor n ∧ n ≠ 0
      ∨ n = 0 ∧ doubling.capacityFor n = 0 ∧ doubling.capacityFor (n + 1) = 8
      ∨ 8 ≤ n ∧ doubling.capacityFor n = n ∧ doubling.capacityFor (n + 1) = 2 * n := by
  rcases Nat.lt_or_eq_of_le (doubling.le_capacityFor n) with hlt | hfull
  · left
    refine ⟨doubling.capacityFor_succ_of_lt hlt, ?_⟩
    rintro rfl
    exact Nat.lt_irrefl 0 hlt
  · right
    rcases (doubling.capacityFor_eq_self_iff).mp hfull.symm with rfl | ⟨k, hk⟩
    · exact .inl ⟨rfl, rfl, doubling.capacityFor_one⟩
    · have hlarge : 8 ≤ n := by
        have := Nat.two_pow_pos k
        omega
      exact .inr ⟨hlarge, hfull.symm, doubling.capacityFor_succ_of_full hfull.symm hlarge⟩

/-- Beyond the first eight places the capacity is less than twice the number of elements. -/
theorem capacityFor_doubling_le (n : Nat) : doubling.capacityFor n ≤ max 8 (2 * n - 1) := by
  induction n with
  | zero => exact Nat.zero_le _
  | succ n ih => rcases capacityFor_succ_cases n with h | h | h <;> omega

/-- How full a store is after an append does not depend on what is made of the answer. -/
theorem extentAfter_map {α β : Type} (growth : Growth) (extent : Extent) (f : α → β)
    (result : Except Fault α) :
    growth.extentAfter extent (result.map f) = growth.extentAfter extent result := by
  cases result with
  | ok answer => rfl
  | error fault => rfl

end Growth

/-- How full a sequence is under doubling once it has one element more. -/
def Extent.oneMore (extent : Extent) : Extent :=
  ⟨extent.length + 1, Growth.doubling.capacityFor (extent.length + 1)⟩

/-- The appends have paid for the moves, two for each, and for more: twice the elements beyond half
of the capacity, and eight. A full sequence can pay with that for the growth that comes next. -/
def Paid (extent : Extent) (appended moved : Nat) : Prop :=
  moved + 2 * extent.length + 8 ≤ 2 * appended + max 8 extent.capacity

/-- The length of a sequence since it was empty is the number of accepted appends, and it has grown
once to eight places and then to twice as many with each further growth. -/
structure Doubled (extent : Extent) (appended growths : Nat) : Prop where
  length : extent.length = appended
  capacity : appended = 0 ∧ growths = 0
    ∨ ∃ j, extent.capacity = 8 * 2 ^ j ∧ growths = 1 + j

section Append

variable {extent : Extent} {appended moved growths : Nat}

/-- An accepted append keeps the moves paid for, those of the growth that it may take as well. -/
theorem Paid.append (governs : Growth.doubling.Governs extent) (paid : Paid extent appended moved) :
    Paid extent.oneMore (appended + 1)
      (moved + if extent.oneMore.capacity ≠ extent.capacity then extent.length else 0) := by
  obtain ⟨n, _⟩ := extent
  obtain rfl : _ = Growth.doubling.capacityFor n := governs
  unfold Paid Extent.oneMore at *
  dsimp only at paid ⊢
  -- Only a full sequence moves elements: all of them, and its capacity rises by their number.
  rcases Growth.capacityFor_succ_cases n with h | h | h <;> split <;> omega

/-- A release keeps the moves paid for. What the elements had left over is lost. -/
theorem Paid.release (governs : Growth.doubling.Governs extent)
    (paid : Paid extent appended moved) : Paid ⟨0, 0⟩ appended moved := by
  obtain ⟨n, _⟩ := extent
  obtain rfl : _ = Growth.doubling.capacityFor n := governs
  have hle := Growth.capacityFor_doubling_le n
  unfold Paid at *
  dsimp only at paid ⊢
  omega

/-- An accepted append keeps the count of the growths: one to eight places at first, and then one to
twice as many places each time. -/
theorem Doubled.append (governs : Growth.doubling.Governs extent)
    (doubled : Doubled extent appended growths) :
    Doubled extent.oneMore (appended + 1)
      (growths + (decide (extent.oneMore.capacity ≠ extent.capacity)).toNat) := by
  obtain ⟨n, _⟩ := extent
  obtain rfl : _ = Growth.doubling.capacityFor n := governs
  obtain ⟨hlength, hcapacity⟩ := doubled
  obtain rfl : n = appended := hlength
  refine ⟨rfl, .inr ?_⟩
  unfold Extent.oneMore
  dsimp only at hcapacity ⊢
  rcases Growth.capacityFor_succ_cases n with
    ⟨hsame, hne⟩ | ⟨rfl, hnone, hfirst⟩ | ⟨hlarge, hfull, hdouble⟩
  · -- There is room, and nothing grows.
    obtain ⟨j, hj, rfl⟩ := hcapacity.resolve_left fun h => hne h.1
    refine ⟨j, hsame.trans hj, ?_⟩
    rw [hsame]
    simp
  · rcases hcapacity with ⟨-, rfl⟩ | ⟨j, hj, -⟩
    · exact ⟨0, hfirst, by simp [hfirst, hnone]⟩
    · have := Nat.two_pow_pos j
      omega
  · obtain ⟨j, hj, rfl⟩ := hcapacity.resolve_left fun h => by omega
    have hmoves : 2 * n ≠ n := by omega
    refine ⟨j + 1, ?_, ?_⟩
    · rw [hdouble, Nat.pow_succ]
      omega
    · rw [hdouble, hfull, decide_eq_true hmoves]
      rfl

end Append

section Run

variable {σ κ α : Type} (perform : σ → κ → Outcome σ α) (extent : σ → Extent) (role : κ → Role)

/-- How full a sequence is after each command under doubling. Soundness is what a command needs of
the data for that, and a sound sequence has the capacity for its length. -/
structure Doubles (sound : σ → Prop) : Prop where
  keeps : ∀ {state}, sound state → ∀ command, sound (perform state command).state
  governs : ∀ {state}, sound state → Growth.doubling.Governs (extent state)
  after : ∀ {state}, sound state → ∀ command,
    extent (perform state command).state
      = match role command with
        | .append => Growth.doubling.extentAfter (extent state) (perform state command).result
        | .release => ⟨0, 0⟩
        | .other => extent state

/-- The bounds on what the growths of a run cost.

* All growths together have moved at most twice as many elements as were appended.
* From empty on, `k` appends take one growth and as many more as the least `j` for which `8 * 2 ^ j`
  covers them. On the way the capacity is never above the larger of eight and `2 * k - 1`. -/
structure Amortized (start : σ) : Prop where
  moved_le : ∀ commands,
    Step.moved extent role (Outcome.steps perform start commands)
      ≤ 2 * Step.appended role (Outcome.steps perform start commands)
  growths : ∀ before stretch,
    let empty := Outcome.stateAfter perform start before
    let k := Step.appended role (Outcome.steps perform empty stretch)
    (extent empty).length = 0 → (∀ command ∈ stretch, role command ≠ .release) → 1 ≤ k →
      (∃ j, IsLeast {j | k ≤ 8 * 2 ^ j} j
        ∧ Step.growths extent (Outcome.steps perform empty stretch) = 1 + j)
      ∧ ∀ part, part <+: stretch →
        (extent (Outcome.stateAfter perform empty part)).capacity ≤ max 8 (2 * k - 1)

namespace Doubles

variable {perform extent role} {sound : σ → Prop} {start : σ}

/-- The data stay sound throughout a run. -/
theorem sound_stateAfter (doubles : Doubles perform extent role sound) (hstart : sound start)
    (commands : List κ) : sound (Outcome.stateAfter perform start commands) :=
  Outcome.stateAfter_induction perform start hstart
    (fun _ command hsound => doubles.keeps hsound command) commands

/-- A step is an append that is accepted, or a release, or leaves the extent as it was. -/
theorem step_cases (doubles : Doubles perform extent role sound) {state : σ} (hsound : sound state)
    (command : κ) :
    (Outcome.step perform state command).accepted role = true
        ∧ extent (perform state command).state = (extent state).oneMore
      ∨ (Outcome.step perform state command).accepted role = false ∧ role command = .release
        ∧ extent (perform state command).state = ⟨0, 0⟩
      ∨ (Outcome.step perform state command).accepted role = false
        ∧ extent (perform state command).state = extent state := by
  have hafter := doubles.after hsound command
  unfold Step.accepted Outcome.step
  cases hrole : role command with
  | append =>
      rw [hrole] at hafter
      cases hresult : (perform state command).result with
      | ok answer =>
          rw [hresult] at hafter
          exact .inl ⟨rfl, hafter⟩
      | error fault =>
          rw [hresult] at hafter
          exact .inr (.inr ⟨rfl, hafter⟩)
  | release =>
      rw [hrole] at hafter
      exact .inr (.inl ⟨rfl, rfl, hafter⟩)
  | other =>
      rw [hrole] at hafter
      exact .inr (.inr ⟨rfl, hafter⟩)

/-- After every run the moves are paid for. -/
theorem paid_stateAfter (doubles : Doubles perform extent role sound) (hstart : sound start)
    (hempty : extent start = ⟨0, 0⟩) (commands : List κ) :
    Paid (extent (Outcome.stateAfter perform start commands))
      (Step.appended role (Outcome.steps perform start commands))
      (Step.moved extent role (Outcome.steps perform start commands)) := by
  induction commands using List.reverseRecOn with
  | nil =>
      show Paid (extent start) 0 0
      rw [hempty]
      exact Nat.le_refl _
  | append_singleton commands command ih =>
      have hsound := doubles.sound_stateAfter hstart commands
      rw [Outcome.steps_concat, Outcome.stateAfter_concat, Step.appended_concat, Step.moved_concat]
      have hgoverns := doubles.governs hsound
      -- Only an accepted append adds to the two counts, and only a release lowers the capacity.
      rcases doubles.step_cases hsound command with
        ⟨haccepted, hextent⟩ | ⟨haccepted, -, hextent⟩ | ⟨haccepted, hextent⟩
      · rw [haccepted, hextent]
        simpa [hextent] using ih.append hgoverns
      · rw [haccepted, hextent]
        simpa using ih.release hgoverns
      · rw [haccepted, hextent]
        simpa using ih

/-- After a stretch from no elements on without a release, the capacity has been doubled once for
each growth but the first. -/
theorem doubled_stateAfter (doubles : Doubles perform extent role sound) (hstart : sound start)
    (hempty : (extent start).length = 0) (stretch : List κ)
    (hkeeps : ∀ command ∈ stretch, role command ≠ .release) :
    Doubled (extent (Outcome.stateAfter perform start stretch))
      (Step.appended role (Outcome.steps perform start stretch))
      (Step.growths extent (Outcome.steps perform start stretch)) := by
  induction stretch using List.reverseRecOn with
  | nil => exact ⟨hempty, .inl ⟨rfl, rfl⟩⟩
  | append_singleton stretch command ih =>
      have hsound := doubles.sound_stateAfter hstart stretch
      -- The stretch up to the last command has no release either.
      have ih := ih fun command hmem => hkeeps command (List.mem_append_left _ hmem)
      rw [Outcome.steps_concat, Outcome.stateAfter_concat, Step.appended_concat,
        Step.growths_concat]
      rcases doubles.step_cases hsound command with
        ⟨haccepted, hextent⟩ | ⟨-, hrelease, -⟩ | ⟨haccepted, hextent⟩
      · rw [haccepted, hextent]
        simpa [hextent] using ih.append (doubles.governs hsound)
      · exact absurd hrelease (hkeeps command (by simp))
      · rw [haccepted, hextent]
        simpa [hextent] using ih

/-- From no elements on and without a release, the capacity is eight at most, or less than twice the
number of accepted appends. -/
theorem capacity_le (doubles : Doubles perform extent role sound) (hstart : sound start)
    (hempty : (extent start).length = 0) (stretch : List κ)
    (hkeeps : ∀ command ∈ stretch, role command ≠ .release) :
    (extent (Outcome.stateAfter perform start stretch)).capacity
      ≤ max 8 (2 * Step.appended role (Outcome.steps perform start stretch) - 1) := by
  rw [doubles.governs (doubles.sound_stateAfter hstart stretch),
    (doubles.doubled_stateAfter hstart hempty stretch hkeeps).length]
  exact Growth.capacityFor_doubling_le _

/-- Under doubling a run from no elements and no capacity keeps to the bounds. -/
theorem amortized (doubles : Doubles perform extent role sound) (hstart : sound start)
    (hempty : extent start = ⟨0, 0⟩) : Amortized perform extent role start where
  moved_le := by
    intro commands
    have paid := doubles.paid_stateAfter hstart hempty commands
    have hgoverns := doubles.governs (doubles.sound_stateAfter hstart commands)
    have hle := Growth.capacityFor_doubling_le
      (extent (Outcome.stateAfter perform start commands)).length
    unfold Growth.Governs at hgoverns
    unfold Paid at paid
    omega
  growths := by
    intro before stretch empty k hlength hkeeps hpos
    have hsound : sound empty := doubles.sound_stateAfter hstart before
    constructor
    · obtain ⟨hcount, hcapacity⟩ := doubles.doubled_stateAfter hsound hlength stretch hkeeps
      -- The capacity at the end is the least that covers the appends, and `j` its exponent.
      have hne : k ≠ 0 := Nat.ne_of_gt hpos
      obtain ⟨j, hj, hgrowths⟩ := hcapacity.resolve_left fun h => hne h.1
      have hleast := Growth.isLeast_capacityFor hne
      have hgoverns := doubles.governs (doubles.sound_stateAfter hsound stretch)
      unfold Growth.Governs at hgoverns
      rw [hj, hcount] at hgoverns
      rw [← hgoverns] at hleast
      refine ⟨j, ⟨hleast.1.1, ?_⟩, hgrowths⟩
      intro i hi
      have hpow : 8 * 2 ^ j ≤ 8 * 2 ^ i := hleast.2 ⟨hi, i, rfl⟩
      exact (Nat.pow_le_pow_iff_right (by decide)).mp (Nat.le_of_mul_le_mul_left hpow (by decide))
    · rintro part ⟨rest, rfl⟩
      have hle := doubles.capacity_le hsound hlength part fun command hmem =>
        hkeeps command (List.mem_append_left rest hmem)
      have hcount : Step.appended role (Outcome.steps perform empty part) ≤ k := by
        show _ ≤ Step.appended role (Outcome.steps perform empty (part ++ rest))
        rw [Outcome.steps_append]
        unfold Step.appended
        rw [List.countP_append]
        exact Nat.le_add_right _ _
      omega

end Doubles

end Run

end Bytecode
