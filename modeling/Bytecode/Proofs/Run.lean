import Bytecode.Memory.Outcome

/-!
# `Bytecode.Proofs.Run`: runs of commands

A store is driven by commands, one at a time, and `perform` says what each of them comes to. A
run carries out a list of commands in order. A refusal does not end it: the next command finds
the data as the refusal left it.

* `andThen_result_eq_ok` takes an operation apart that has succeeded in all its parts.
* `Granted` says of an operation that it was not refused memory. It may have been refused for
  another reason, as a read beyond the end is. `AllGranted` says so of all commands of a run.
* `stateAfter` is the data at the end of a run, and `history` is the run written down, each
  command with its outcome.
* `stateAfter_concat` and `history_concat` add a last command to a run, the step lemma behind
  every statement about whole runs here.
* `history_restart`: after a command that has taken the data back to the start, a run goes on as
  from the start.
* `stateAfter_induction`: what holds at the start and is kept by every command holds at the
  end.
-/

set_option autoImplicit false

namespace Bytecode.Outcome

variable {σ κ α β : Type}

/-- Where an operation and what goes on from it have succeeded together, each has. -/
theorem andThen_result_eq_ok {outcome : Outcome σ α} {next : σ → α → Outcome σ β} {b : β}
    (h : (outcome.andThen next).result = .ok b) :
    ∃ a, outcome.result = .ok a ∧ (next outcome.state a).result = .ok b
      ∧ (outcome.andThen next).state = (next outcome.state a).state := by
  obtain ⟨result, state, log⟩ := outcome
  cases result with
  | error fault => nomatch h
  | ok a => exact ⟨a, rfl, h, rfl⟩

/-- Where a result has been passed through a function, there was one. -/
theorem map_result_eq_ok {outcome : Outcome σ α} {f : α → β} {b : β}
    (h : (outcome.map f).result = .ok b) : ∃ a, outcome.result = .ok a ∧ f a = b := by
  obtain ⟨result, state, log⟩ := outcome
  cases result with
  | error fault => nomatch h
  | ok a => exact ⟨a, rfl, Except.ok.inj h⟩

/-- Where a result has been passed through a function and there is none, there was none. -/
theorem map_result_eq_error {outcome : Outcome σ α} {f : α → β} {fault : Fault}
    (h : (outcome.map f).result = .error fault) : outcome.result = .error fault := by
  obtain ⟨result, state, log⟩ := outcome
  cases result with
  | error fault => exact congrArg _ (Except.error.inj h)
  | ok a => nomatch h

/-- The operation was not refused memory. -/
def Granted (outcome : Outcome σ α) : Prop :=
  ∀ requested, outcome.result ≠ .error (.outOfMemory requested)

/-- Whether memory was refused does not depend on what is made of the result. -/
theorem Granted.of_map {outcome : Outcome σ α} {f : α → β} (granted : (outcome.map f).Granted) :
    outcome.Granted := by
  intro requested hresult
  apply granted requested
  unfold map
  rw [hresult]
  rfl

/-- Where a whole operation was not refused memory, its first part was not. -/
theorem Granted.of_andThen {outcome : Outcome σ α} {next : σ → α → Outcome σ β}
    (granted : (outcome.andThen next).Granted) : outcome.Granted := by
  obtain ⟨result, state, log⟩ := outcome
  intro requested hresult
  obtain rfl : result = .error (.outOfMemory requested) := hresult
  exact granted requested rfl

/-- Memory was refused to no command of the history. -/
def AllGranted (history : List (κ × Outcome σ α)) : Prop := ∀ entry ∈ history, entry.2.Granted

/-- The data at the end of a run of commands. -/
def stateAfter (perform : σ → κ → Outcome σ α) (state : σ) (commands : List κ) : σ :=
  commands.foldl (fun state command => (perform state command).state) state

/-- A run of commands written down: each command with its outcome, in order. -/
def history (perform : σ → κ → Outcome σ α) (state : σ) : List κ → List (κ × Outcome σ α)
  | [] => []
  | command :: commands =>
      (command, perform state command) :: history perform (perform state command).state commands

variable (perform : σ → κ → Outcome σ α) (state : σ)

/-- A history begins with the first command and goes on from the data that it left. -/
@[simp] theorem history_cons (command : κ) (commands : List κ) :
    history perform state (command :: commands)
      = (command, perform state command)
        :: history perform (perform state command).state commands := rfl

/-- A run of two parts goes on where the first part ended. -/
theorem stateAfter_append (first second : List κ) :
    stateAfter perform state (first ++ second)
      = stateAfter perform (stateAfter perform state first) second :=
  List.foldl_append

/-- The last command of a run acts on the data that the commands before it left. -/
theorem stateAfter_concat (commands : List κ) (command : κ) :
    stateAfter perform state (commands ++ [command])
      = (perform (stateAfter perform state commands) command).state :=
  stateAfter_append perform state commands [command]

/-- The history of a run of two parts is that of the first part, and after it that of the
second from where the first ended. -/
theorem history_append (first second : List κ) :
    history perform state (first ++ second)
      = history perform state first
        ++ history perform (stateAfter perform state first) second := by
  induction first generalizing state with
  | nil => rfl
  | cons command commands ih =>
      rw [List.cons_append, history_cons, history_cons, List.cons_append, ih]
      rfl

/-- The last entry of a history is the outcome of the last command on the data before it. -/
theorem history_concat (commands : List κ) (command : κ) :
    history perform state (commands ++ [command])
      = history perform state commands
        ++ [(command, perform (stateAfter perform state commands) command)] :=
  history_append perform state commands [command]

/-- A command that takes the data back to where the run began begins it anew: what comes after it
goes as if nothing had come before. -/
theorem history_restart {commands : List κ} {command : κ}
    (h : (perform (stateAfter perform state commands) command).state = state)
    (further : List κ) :
    history perform state (commands ++ command :: further)
      = history perform state commands
        ++ (command, perform (stateAfter perform state commands) command)
          :: history perform state further := by
  rw [history_append, history_cons, h]

/-- What holds at the start of a run and is kept by every command holds at its end. -/
theorem stateAfter_induction {invariant : σ → Prop} (start : invariant state)
    (step : ∀ state command, invariant state → invariant (perform state command).state)
    (commands : List κ) : invariant (stateAfter perform state commands) := by
  induction commands generalizing state with
  | nil => exact start
  | cons command commands ih => exact ih (perform state command).state (step state command start)

end Bytecode.Outcome
