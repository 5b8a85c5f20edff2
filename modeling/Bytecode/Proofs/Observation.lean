import Bytecode.Proofs.Run

/-!
# `Bytecode.Proofs.Observation`: what can be seen of a run

Data may have parts that nobody can see. A view of the data keeps what can be seen, and
`Outcome.seen` is an outcome through a view: its result, and the view of the data after it.

A view is `Complete` if what is seen of a command never depends on what is hidden, and a refused
command changes nothing that can be seen. Then the refused commands of a run can be struck out:
the others have the same outcomes as before, as far as they can be seen (`Complete.traceless`).
The hidden parts may differ between the two runs. All that the induction carries is that both
are sound and look the same.
-/

set_option autoImplicit false

namespace Bytecode.Outcome

variable {σ κ α ν : Type}

/-- What is seen of an outcome: its result, and the view of the data after it. -/
def seen (view : σ → ν) (outcome : Outcome σ α) : Except Fault α × ν :=
  (outcome.result, view outcome.state)

/-- Outcomes that look the same still do once their results are passed through a function. -/
theorem seen_map_congr {β : Type} {view : σ → ν} {first second : Outcome σ α}
    (h : first.seen view = second.seen view) (f : α → β) :
    (first.map f).seen view = (second.map f).seen view :=
  congrArg (fun seen => (seen.1.map f, seen.2)) h

/-- What is seen of a refused outcome has the refusal in it, and shows the data after it. -/
theorem seen_of_refused {view : σ → ν} {outcome : Outcome σ α} {seen : Except Fault α × ν}
    {fault : Fault} (hseen : outcome.seen view = seen) (hrefused : outcome.result = .error fault) :
    seen.1 = .error fault ∧ view outcome.state = seen.2 := by
  rw [← hseen]
  exact ⟨hrefused, rfl⟩

/-- A history as it is seen: each command with what is seen of its outcome. -/
def observed (view : σ → ν) (history : List (κ × Outcome σ α)) :
    List (κ × (Except Fault α × ν)) :=
  history.map fun entry => (entry.1, entry.2.seen view)

/-- The command of the entry was not refused. -/
def succeeded (entry : κ × Outcome σ α) : Bool := entry.2.result.isOk

/-- A run in which nothing was refused was not refused memory. -/
theorem allGranted_of_succeeded {history : List (κ × Outcome σ α)}
    (h : history.all succeeded = true) : AllGranted history := by
  intro entry hentry requested hresult
  have hsucceeded : succeeded entry = true := List.all_eq_true.mp h entry hentry
  unfold succeeded at hsucceeded
  rw [hresult] at hsucceeded
  nomatch hsucceeded

/-- An entry with a refusal does not count. -/
theorem filter_succeeded_of_error {entry : κ × Outcome σ α} {fault : Fault}
    (h : entry.2.result = .error fault) (history : List (κ × Outcome σ α)) :
    (entry :: history).filter succeeded = history.filter succeeded := by
  apply List.filter_cons_of_neg
  unfold succeeded
  rw [h]
  exact Bool.false_ne_true

/-- An entry with an answer counts. -/
theorem filter_succeeded_of_ok {entry : κ × Outcome σ α} {answer : α}
    (h : entry.2.result = .ok answer) (history : List (κ × Outcome σ α)) :
    (entry :: history).filter succeeded = entry :: history.filter succeeded := by
  apply List.filter_cons_of_pos
  unfold succeeded
  rw [h]
  rfl

/-- The commands of a history that were not refused, in order. -/
def unrefused (history : List (κ × Outcome σ α)) : List κ :=
  (history.filter succeeded).map Prod.fst

/-- A refusal leaves no trace in the runs from some data: a refused command changes nothing that
is seen, and without the refused commands a run looks the same at every other command and at its
end. -/
structure Traceless (perform : σ → κ → Outcome σ α) (start : σ) (view : σ → ν) : Prop where
  refused : ∀ commands command fault,
    (perform (stateAfter perform start commands) command).result = .error fault →
      view (perform (stateAfter perform start commands) command).state
        = view (stateAfter perform start commands)
  observed : ∀ commands,
    observed view (history perform start (unrefused (history perform start commands)))
      = observed view ((history perform start commands).filter succeeded)
  final : ∀ commands,
    view (stateAfter perform start (unrefused (history perform start commands)))
      = view (stateAfter perform start commands)

/-- The view tells all that commands depend on in sound data: sound data stays sound, a command on
data that looks the same is seen to do the same, and a refused one changes nothing that is
seen. -/
structure Complete (perform : σ → κ → Outcome σ α) (sound : σ → Prop) (view : σ → ν) :
    Prop where
  keeps : ∀ {state}, sound state → ∀ command, sound (perform state command).state
  agrees : ∀ {first second}, sound first → sound second → view first = view second →
    ∀ command, (perform first command).seen view = (perform second command).seen view
  refused : ∀ {state}, sound state → ∀ {command fault},
    (perform state command).result = .error fault →
      view (perform state command).state = view state

namespace Complete

variable {perform : σ → κ → Outcome σ α} {sound : σ → Prop} {view : σ → ν}

/-- A run without its refused commands, from data that looks the same: every other command is
seen to do what it did, and the data looks the same in the end. -/
theorem observed_unrefused (complete : Complete perform sound view) (commands : List κ)
    {first second : σ} (hfirst : sound first) (hsecond : sound second)
    (halike : view first = view second) :
    observed view (history perform second (unrefused (history perform first commands)))
        = observed view ((history perform first commands).filter succeeded)
      ∧ view (stateAfter perform second (unrefused (history perform first commands)))
        = view (stateAfter perform first commands) := by
  induction commands generalizing first second with
  | nil => exact ⟨rfl, halike.symm⟩
  | cons command commands ih =>
      have hkeeps := complete.keeps hfirst command
      unfold unrefused at ih ⊢
      cases hresult : (perform first command).result with
      | error fault =>
          -- The command is struck out, so the second run has not moved, and still looks the same.
          rw [history_cons, filter_succeeded_of_error hresult]
          exact ih hkeeps hsecond ((complete.refused hfirst hresult).trans halike)
      | ok answer =>
          -- The command stays, and is seen to do the same in both runs.
          have hagrees := complete.agrees hfirst hsecond halike command
          obtain ⟨hobserved, hfinal⟩ :=
            ih hkeeps (complete.keeps hsecond command) (congrArg Prod.snd hagrees)
          rw [history_cons, filter_succeeded_of_ok hresult]
          refine ⟨?_, hfinal⟩
          show (command, (perform second command).seen view) :: observed view _
            = (command, (perform first command).seen view) :: observed view _
          rw [hobserved, hagrees]

/-- A refusal leaves no trace in the runs from sound data, as far as a complete view goes. -/
theorem traceless (complete : Complete perform sound view) {start : σ} (hstart : sound start) :
    Traceless perform start view where
  refused commands _ _ hrefused :=
    complete.refused
      (stateAfter_induction perform start hstart
        (fun _ command hsound => complete.keeps hsound command) commands) hrefused
  observed commands := (complete.observed_unrefused commands hstart hstart rfl).1
  final commands := (complete.observed_unrefused commands hstart hstart rfl).2

end Complete

end Bytecode.Outcome
