import Mathlib.Data.List.Forall2
import Bytecode.Proofs.Observation

/-!
# `Bytecode.Proofs.Lockstep`: two runs side by side

The same commands can be carried out in two ways, on data of two kinds. `InStep` compares the
histories command by command: the commands are the same, and the two outcomes of each agree in
whatever sense is asked for.

`history_inStep` is the induction behind every comparison of this kind. A relation of the data
carries it: whatever is related is still related after one more command, and the outcomes of that
command agree. The step may rely on what is known of every outcome of either run. `history_seen` is
the case of two ways to carry out commands that cannot be told apart by a view of the data.
-/

set_option autoImplicit false

namespace Bytecode.Outcome

variable {σ τ κ α β : Type}

/-- Two histories have the same commands in the same order, and the outcomes of each agree. -/
def InStep (agree : κ → Outcome σ α → Outcome τ β → Prop) (first : List (κ × Outcome σ α))
    (second : List (κ × Outcome τ β)) : Prop :=
  List.Forall₂ (fun entry entry' => entry.1 = entry'.1 ∧ agree entry.1 entry.2 entry'.2) first
    second

/-- Runs of the same commands from related sound data are in step, if commands keep data sound, and
every command on related data keeps it related and comes to outcomes that agree. Both may depend on
what all outcomes of the runs are known for. -/
theorem history_inStep {left : σ → κ → Outcome σ α} {right : τ → κ → Outcome τ β}
    {sound : σ → Prop} {sound' : τ → Prop} {agree : κ → Outcome σ α → Outcome τ β → Prop}
    (related : σ → τ → Prop) (known : Outcome σ α → Prop) (known' : Outcome τ β → Prop)
    (keeps : ∀ {first}, sound first → ∀ command, sound (left first command).state)
    (keeps' : ∀ {second}, sound' second → ∀ command, sound' (right second command).state)
    (step : ∀ {first second}, sound first → sound' second → related first second →
      ∀ command, known (left first command) → known' (right second command) →
        agree command (left first command) (right second command)
          ∧ related (left first command).state (right second command).state) :
    ∀ (commands : List κ) {first : σ} {second : τ}, sound first → sound' second →
      related first second →
      (∀ entry ∈ history left first commands, known entry.2) →
      (∀ entry ∈ history right second commands, known' entry.2) →
      InStep agree (history left first commands) (history right second commands) := by
  intro commands
  induction commands with
  | nil =>
      intro first second _ _ _ _ _
      exact .nil
  | cons command commands ih =>
      intro first second hfirst hsecond hrelated hknown hknown'
      rw [history_cons] at hknown hknown' ⊢
      rw [history_cons]
      obtain ⟨hagree, hnext⟩ := step hfirst hsecond hrelated command
        (hknown _ List.mem_cons_self) (hknown' _ List.mem_cons_self)
      refine .cons ⟨rfl, hagree⟩ (ih (keeps hfirst command) (keeps' hsecond command) hnext ?_ ?_)
      · intro entry hentry
        exact hknown entry (List.mem_cons_of_mem _ hentry)
      · intro entry hentry
        exact hknown' entry (List.mem_cons_of_mem _ hentry)

/-- Two ways to carry out commands that are seen to do the same on sound data are seen to do the
same in every run. -/
theorem history_seen {ν : Type} {left right : σ → κ → Outcome σ α} {sound : σ → Prop}
    {view : σ → ν} (complete : Complete left sound view) (complete' : Complete right sound view)
    (same : ∀ {first second}, sound first → sound second → view first = view second →
      ∀ command, (left first command).seen view = (right second command).seen view)
    (commands : List κ) {start : σ} (hstart : sound start) :
    InStep (fun _ outcome outcome' => outcome.seen view = outcome'.seen view)
      (history left start commands) (history right start commands) := by
  refine history_inStep (fun first second => view first = view second) (fun _ => True)
    (fun _ => True) complete.keeps complete'.keeps ?_ commands hstart hstart rfl
    (fun _ _ => trivial) (fun _ _ => trivial)
  intro first second hfirst hsecond halike command _ _
  have hsame := same hfirst hsecond halike command
  exact ⟨hsame, congrArg Prod.snd hsame⟩

end Bytecode.Outcome
