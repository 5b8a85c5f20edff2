import Bytecode.Memory.Event

/-!
# `Bytecode.Memory.Outcome`: what an operation on stored data comes to

An operation on stored data yields a result or a fault, the data after it, and the log entries
it made. A fault does not undo what was done before it: the data after a refused operation is
part of its outcome, and whether anyone can see a difference is for the operation to answer.
-/

set_option autoImplicit false

namespace Bytecode

/-- The outcome of an operation on data of type `σ` that yields an `α`. -/
structure Outcome (σ α : Type) where
  /-- What the operation yields, or why it was refused. -/
  result : Except Fault α
  /-- The data after the operation. -/
  state : σ
  /-- The log entries of the operation, in order. -/
  log : List MemoryEvent

namespace Outcome

variable {σ τ α β : Type}

/-- An operation that yields `a` and logs nothing. -/
def ok (state : σ) (a : α) : Outcome σ α := ⟨.ok a, state, []⟩

/-- An operation that is refused and logs nothing. -/
def refuse (state : σ) (fault : Fault) : Outcome σ α := ⟨.error fault, state, []⟩

/-- An operation that leaves the data as it was, and yields or refuses as `result` says. -/
def read (state : σ) (result : Except Fault α) : Outcome σ α := ⟨result, state, []⟩

/-- Goes on with `next` where the operation succeeded. The log entries of both stand in
order. -/
def andThen (outcome : Outcome σ α) (next : σ → α → Outcome σ β) : Outcome σ β :=
  match outcome with
  | ⟨.ok a, state, log⟩ =>
      let after := next state a
      { after with log := log ++ after.log }
  | ⟨.error fault, state, log⟩ => ⟨.error fault, state, log⟩

/-- The outcome seen from the whole that the data is a part of. -/
def within (outcome : Outcome σ α) (whole : σ → τ) : Outcome τ α :=
  ⟨outcome.result, whole outcome.state, outcome.log⟩

/-- The outcome with its result passed through `f`. -/
def map (outcome : Outcome σ α) (f : α → β) : Outcome σ β :=
  { outcome with result := outcome.result.map f }

/-! ### How the combinators act -/

/-- After a success the continuation runs, and the entries of both stand in order. -/
theorem andThen_ok (a : α) (state : σ) (log : List MemoryEvent) (next : σ → α → Outcome σ β) :
    andThen ⟨.ok a, state, log⟩ next =
      ⟨(next state a).result, (next state a).state, log ++ (next state a).log⟩ := rfl

/-- After a fault nothing more happens. -/
theorem andThen_error (fault : Fault) (state : σ) (log : List MemoryEvent)
    (next : σ → α → Outcome σ β) :
    andThen ⟨.error fault, state, log⟩ next = ⟨.error fault, state, log⟩ := rfl

/-- A continuation that logs nothing leaves the entries as they are. -/
theorem andThen_ok_ok (a : α) (state : σ) (log : List MemoryEvent) (change : σ → α → σ)
    (yield : σ → α → β) :
    andThen ⟨.ok a, state, log⟩ (fun state a => ok (change state a) (yield state a))
      = ⟨.ok (yield state a), change state a, log⟩ := by
  rw [andThen_ok]
  show Outcome.mk _ _ (log ++ []) = _
  rw [List.append_nil]
  rfl

@[simp] theorem state_ok (state : σ) (a : α) : (ok state a).state = state := rfl

@[simp] theorem result_ok (state : σ) (a : α) : (ok state a).result = .ok a := rfl

/-- Going on from an operation that logs nothing is the continuation itself. -/
@[simp] theorem ok_andThen (state : σ) (a : α) (next : σ → α → Outcome σ β) :
    (ok state a).andThen next = next state a := rfl

/-- A refusal stays a refusal. -/
@[simp] theorem refuse_andThen (state : σ) (fault : Fault) (next : σ → α → Outcome σ β) :
    (refuse state fault : Outcome σ α).andThen next = refuse state fault := rfl

/-- Seeing an outcome from a whole changes neither its result nor its log. -/
@[simp] theorem result_within (outcome : Outcome σ α) (whole : σ → τ) :
    (outcome.within whole).result = outcome.result := rfl

@[simp] theorem state_within (outcome : Outcome σ α) (whole : σ → τ) :
    (outcome.within whole).state = whole outcome.state := rfl

@[simp] theorem log_within (outcome : Outcome σ α) (whole : σ → τ) :
    (outcome.within whole).log = outcome.log := rfl

/-- Passing the result through a function leaves the data and the log. -/
@[simp] theorem state_map (outcome : Outcome σ α) (f : α → β) :
    (outcome.map f).state = outcome.state := rfl

@[simp] theorem log_map (outcome : Outcome σ α) (f : α → β) :
    (outcome.map f).log = outcome.log := rfl

end Outcome

end Bytecode
