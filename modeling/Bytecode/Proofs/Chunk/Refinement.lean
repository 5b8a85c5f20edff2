import Bytecode.Proofs.Chunk.Contents
import Mathlib.Data.List.DropRight

/-!
# `Bytecode.Proofs.Chunk.Refinement`: a chunk is a pair of lists

To whoever uses it a chunk is two lists that only grow: the bytes with their lines, and the
constants. What is in them can be told from the outside, from the commands that were accepted
since the last release (`accepted`): each push has written its byte with its line, and each
push of a constant has added its value. How storage is managed behind the lists cannot be seen
in their contents.

* `Shows` is the invariant: the chunk holds what the accepted commands have put there, and the
  answers that named an index have counted up from zero.
* `shows_perform` is the step, for every command but a release; a release starts anew.
* `represents_reached` is the whole: after any run the chunk stands for the two lists, and every
  read answers from them, with the fault that names the index and the length of the list where
  it ends.
-/

set_option autoImplicit false

namespace Bytecode.Chunk

/-- The byte and the line that a command writes once it is accepted. -/
def Command.writes? : Command → Option (UInt8 × UInt32)
  | push byte line => some (byte, line)
  | pushOpcode opcode line => some (opcode.toByte, line)
  | _ => none

/-- The constant that a command adds once it is accepted. -/
def Command.adds? : Command → Option Value
  | pushConstant value => some value
  | _ => none

/-- A run of commands on the empty chunk written down. -/
def history (settings : Settings) (commands : List Command) :
    List (Command × Outcome Chunk Answer) :=
  Outcome.history (perform settings) .empty commands

/-- A command that was not refused, with its answer. -/
def accepted? (entry : Command × Outcome Chunk Answer) : Option (Command × Answer) :=
  entry.2.result.toOption.map fun answer => (entry.1, answer)

/-- The commands that were accepted since the last release, each with its answer. -/
def accepted (history : List (Command × Outcome Chunk Answer)) : List (Command × Answer) :=
  (history.rtakeWhile fun entry => decide (entry.1 ≠ .release)).filterMap accepted?

/-- The bytes with their lines that accepted commands have written, in order. -/
def written (accepted : List (Command × Answer)) : List (UInt8 × UInt32) :=
  accepted.filterMap fun entry => entry.1.writes?

/-- The constants that accepted commands have added, in order. -/
def pooled (accepted : List (Command × Answer)) : List Value :=
  accepted.filterMap fun entry => entry.1.adds?

/-- What the accepted commands that added a constant were answered, in order. -/
def indices (accepted : List (Command × Answer)) : List Answer :=
  accepted.filterMap fun entry => entry.1.adds?.map fun _ => entry.2

/-- The chunk holds what accepted commands have put there, and the answers that named an index
were the places of the constants. -/
structure Shows (chunk : Chunk) (accepted : List (Command × Answer)) : Prop where
  holds : chunk.Holds (written accepted) (pooled accepted)
  indices : indices accepted = (List.range (pooled accepted).length).map .index

/-! ### What an accepted command adds -/

section Accepted

variable (entries : List (Command × Answer)) (command : Command) (answer : Answer)

@[simp] theorem written_concat :
    written (entries ++ [(command, answer)]) = written entries ++ command.writes?.toList := by
  unfold written
  cases h : command.writes? <;> simp [h]

@[simp] theorem pooled_concat :
    pooled (entries ++ [(command, answer)]) = pooled entries ++ command.adds?.toList := by
  unfold pooled
  cases h : command.adds? <;> simp [h]

@[simp] theorem indices_concat :
    indices (entries ++ [(command, answer)])
      = indices entries ++ (command.adds?.map fun _ => answer).toList := by
  unfold indices
  cases h : command.adds? <;> simp [h]

/-- A release starts anew: nothing has been accepted after it. -/
theorem accepted_concat_release (history : List (Command × Outcome Chunk Answer))
    (outcome : Outcome Chunk Answer) : accepted (history ++ [(.release, outcome)]) = [] := by
  unfold accepted
  rw [List.rtakeWhile_concat_neg _ _ _ (by simp)]
  rfl

/-- Any other command counts if it was accepted. -/
theorem accepted_concat (history : List (Command × Outcome Chunk Answer))
    (outcome : Outcome Chunk Answer) (h : command ≠ .release) :
    accepted (history ++ [(command, outcome)])
      = accepted history ++ (accepted? (command, outcome)).toList := by
  unfold accepted
  rw [List.rtakeWhile_concat_pos _ _ _ (by simpa using h), List.filterMap_append]
  cases hentry : accepted? (command, outcome) <;> simp [hentry]

end Accepted

/-! ### The step -/

section Step

variable {settings : Settings} {chunk : Chunk} {entries : List (Command × Answer)}

/-- A command that only reads leaves what is shown, whatever it was answered. -/
theorem Shows.read (shown : chunk.Shows entries) {command : Command}
    (hwrites : command.writes? = none) (hadds : command.adds? = none)
    (result : Except Fault Answer) :
    chunk.Shows (entries ++ (accepted? (command, .read chunk result)).toList) := by
  cases result with
  | error fault =>
      show chunk.Shows (entries ++ [])
      rw [List.append_nil]
      exact shown
  | ok answer =>
      show chunk.Shows (entries ++ [(command, answer)])
      constructor
      · rw [written_concat, pooled_concat, hwrites, hadds]
        simpa using shown.holds
      · rw [indices_concat, pooled_concat, hadds]
        simpa using shown.indices

/-- A command that writes a byte and a line, if it is accepted, puts them after those that are
there. -/
theorem Shows.push (sound : chunk.Sound) (shown : chunk.Shows entries) {command : Command}
    {byte : UInt8} {line : UInt32} (hwrites : command.writes? = some (byte, line))
    (hadds : command.adds? = none)
    (hperform : chunk.perform settings command
      = (chunk.push settings byte line).map fun _ => .done) :
    (chunk.perform settings command).state.Shows
      (entries ++ (accepted? (command, chunk.perform settings command)).toList) := by
  rw [hperform]
  unfold accepted? Outcome.map
  rcases shown.holds.push settings sound byte line with ⟨hok, hholds⟩ | ⟨fault, herror, hholds⟩
  · rw [hok]
    show Shows _ (entries ++ [(command, .done)])
    constructor
    · rw [written_concat, pooled_concat, hwrites, hadds]
      simpa using hholds
    · rw [indices_concat, pooled_concat, hadds]
      simpa using shown.indices
  · rw [herror]
    show Shows _ (entries ++ [])
    rw [List.append_nil]
    exact ⟨hholds, shown.indices⟩

/-- A command that adds a constant, if it is accepted, puts it after those that are there and
is answered their number. -/
theorem Shows.pushConstant (sound : chunk.Sound) (shown : chunk.Shows entries) (value : Value) :
    (chunk.perform settings (.pushConstant value)).state.Shows
      (entries ++ (accepted? (.pushConstant value,
        chunk.perform settings (.pushConstant value))).toList) := by
  have hperform : chunk.perform settings (.pushConstant value)
      = (chunk.pushConstant settings value).map .index := rfl
  rw [hperform]
  unfold accepted? Outcome.map
  rcases shown.holds.pushConstant settings sound value with
    ⟨hok, hholds⟩ | ⟨fault, herror, hholds⟩
  · rw [hok]
    show Shows _ (entries ++ [(.pushConstant value, .index (pooled entries).length)])
    constructor
    · rw [written_concat, pooled_concat]
      simpa [Command.writes?, Command.adds?] using hholds
    · rw [indices_concat, pooled_concat, shown.indices]
      simp [Command.adds?, List.range_succ]
  · rw [herror]
    show Shows _ (entries ++ [])
    rw [List.append_nil]
    exact ⟨hholds, shown.indices⟩

/-- Every command but a release adds to what is shown what it was accepted for. -/
theorem shows_perform (sound : chunk.Sound) (shown : chunk.Shows entries) (command : Command)
    (hrelease : command ≠ .release) :
    (chunk.perform settings command).state.Shows
      (entries ++ (accepted? (command, chunk.perform settings command)).toList) := by
  cases command with
  | push byte line => exact shown.push sound rfl rfl rfl
  | pushOpcode opcode line => exact shown.push sound rfl rfl rfl
  | pushConstant value => exact shown.pushConstant sound value
  | release => exact absurd rfl hrelease
  | _ => exact shown.read rfl rfl _

end Step

/-! ### The run -/

/-- After any run the chunk shows what was accepted since the last release. The induction adds
the last command of the run: after a release nothing has been accepted yet, and the chunk is
the empty one. -/
theorem shows_reached (settings : Settings) (commands : List Command) :
    (reached settings commands).Shows (accepted (history settings commands)) := by
  induction commands using List.reverseRecOn with
  | nil => exact ⟨holds_empty, rfl⟩
  | append_singleton commands command ih =>
      have hhistory : history settings (commands ++ [command])
          = history settings commands
            ++ [(command, (reached settings commands).perform settings command)] :=
        Outcome.history_concat (perform settings) .empty commands command
      rw [reached_concat, hhistory]
      by_cases hrelease : command = .release
      · subst hrelease
        rw [accepted_concat_release]
        exact ⟨holds_empty, rfl⟩
      · rw [accepted_concat _ _ _ hrelease]
        exact shows_perform (sound_reached settings commands) ih command hrelease

/-- A new chunk and the default one are the same, and after any run of commands on it the chunk
stands for two lists: the bytes with their lines and the constants of the commands that were
accepted since the last release. The accepted constants of that time were answered the indices
from zero up, each the place of its value. -/
theorem represents_reached (settings : Settings) (commands : List Command) :
    (default : Chunk) = .empty
    ∧ (reached settings commands).Represents
        (written (accepted (history settings commands)))
        (pooled (accepted (history settings commands)))
    ∧ indices (accepted (history settings commands))
        = (List.range (pooled (accepted (history settings commands))).length).map .index := by
  have shown := shows_reached settings commands
  exact ⟨rfl, shown.holds.represents, shown.indices⟩

end Bytecode.Chunk
