import Bytecode.Proofs.Chunk.Bookkeeping
import Bytecode.Proofs.Memory.Ledger
import Bytecode.Proofs.Observation

/-!
# `Bytecode.Proofs.Chunk.Ledger`: the memory log of a chunk

There are three numbers to every buffer of a chunk: the capacity that the chunk counts, the storage
that has been reserved, and the capacity that the log tells of. A growth logs what it asks for, a
release logs what there is, and an answer reports what is counted. As long as no growth is refused
the three are one: `Booked` says so, and `perform_booked` that every command keeps it so.

* `Command.due` is what a command has to log, given the log so far and the chunk before and after.
* `booked_reached` is the run, and `log_accounts` sums up what the log tells of it.
-/

set_option autoImplicit false

namespace Bytecode.Chunk

open Ledger

/-- The log of a run of commands on the empty chunk: the entries of all commands in order. -/
def logged (settings : Settings) (commands : List Command) : List MemoryEvent :=
  (Outcome.history (perform settings) .empty commands).flatMap fun entry => entry.2.log

/-- The capacity that the chunk counts for its buffers of a kind. -/
def counted (chunk : Chunk) : ElementKind → Nat
  | .byte | .line => chunk.capacity
  | .value => chunk.constants.capacity
  | .unit => 0

/-- The entries of a command on a chunk that has come to what it is under a log. A byte that makes
the chunk grow logs the growth of the code and of the lines, and a constant that makes the pool grow
logs the growth of that. A release logs one entry for each buffer, with the last capacity that the
log tells of it. Everything else logs nothing. -/
def Command.due (log : List MemoryEvent) (before after : Chunk) : Command → List MemoryEvent
  | .push _ _ | .pushOpcode _ _ => growth [.byte, .line] before.capacity after.capacity
  | .pushConstant _ => growth [.value] before.constants.capacity after.constants.capacity
  | .release =>
      [.released .byte (lastGrant .byte log), .released .line (lastGrant .line log),
        .released .value (lastGrant .value log)]
  | _ => []

/-- The books are right: the storage behind each buffer is the capacity that the chunk counts, and
the log accounts for that. -/
structure Booked (chunk : Chunk) (log : List MemoryEvent) : Prop where
  code : chunk.code.reserved = chunk.capacity
  lines : chunk.lines.reserved = chunk.capacity
  values : chunk.constants.values.reserved = chunk.constants.capacity
  accounts : ∀ kind, Accounts log kind (chunk.counted kind)

/-- An empty chunk is booked by the empty log. -/
theorem booked_empty : empty.Booked [] where
  code := rfl
  lines := rfl
  values := rfl
  accounts kind := by cases kind <;> exact accounts_nil

namespace Booked

variable {chunk : Chunk} {log : List MemoryEvent} {n : Nat}

/-- Storing a byte takes no storage. -/
theorem store (booked : chunk.Booked log) (byte : UInt8) (line : UInt32) :
    (chunk.store byte line).Booked log :=
  ⟨booked.code, booked.lines, booked.values, booked.accounts⟩

/-- Storing a constant takes no storage. -/
theorem storeConstant (booked : chunk.Booked log) (value : Value) :
    (chunk.storeConstant value).Booked log :=
  ⟨booked.code, booked.lines, booked.values, booked.accounts⟩

/-- A growth of the code and the lines is booked by an entry for each. -/
theorem widen (booked : chunk.Booked log) (greater : chunk.capacity < n) :
    (chunk.widen n).Booked (log ++ [.reserved .byte n, .reserved .line n]) where
  code := by
    show max chunk.code.reserved n = n
    rw [booked.code, Nat.max_eq_right (Nat.le_of_lt greater)]
  lines := by
    show max chunk.lines.reserved n = n
    rw [booked.lines, Nat.max_eq_right (Nat.le_of_lt greater)]
  values := booked.values
  accounts kind := by
    have haccounts := booked.accounts kind
    rw [List.append_cons]
    cases kind with
    | byte => exact (haccounts.reserved greater).other (by decide)
    | line => exact (haccounts.other (by decide)).reserved greater
    | value => exact (haccounts.other (by decide)).other (by decide)
    | unit => exact (haccounts.other (by decide)).other (by decide)

/-- A growth of the pool is booked by an entry. -/
theorem widenConstants (booked : chunk.Booked log) (greater : chunk.constants.capacity < n) :
    (chunk.widenConstants n).Booked (log ++ [.reserved .value n]) where
  code := booked.code
  lines := booked.lines
  values := by
    show max chunk.constants.values.reserved n = n
    rw [booked.values, Nat.max_eq_right (Nat.le_of_lt greater)]
  accounts kind := by
    have haccounts := booked.accounts kind
    cases kind with
    | value => exact haccounts.reserved greater
    | byte | line | unit => exact haccounts.other (by decide)

/-- After a release the empty chunk is booked, whatever the entry of it says. -/
theorem released {kind : ElementKind} : empty.Booked (log ++ [.released kind n]) where
  code := rfl
  lines := rfl
  values := rfl
  accounts kind' := by cases kind' <;> exact accounts_released

end Booked

/-! ### Every command -/

section Perform

variable {settings : Settings} {chunk : Chunk} {log : List MemoryEvent}

/-- A byte: a growth is logged for the code and for the lines, and the books stay right. -/
theorem push_booked (logging : settings.logging = true) (sound : chunk.Sound)
    (booked : chunk.Booked log) {byte : UInt8} {line : UInt32}
    (granted : (chunk.push settings byte line).Granted) :
    (chunk.push settings byte line).log
        = growth [.byte, .line] chunk.capacity (chunk.push settings byte line).state.capacity
      ∧ (chunk.push settings byte line).state.Booked
          (log ++ (chunk.push settings byte line).log) := by
  rcases push_granted settings sound granted with heq | ⟨n, greater, heq⟩
  · rw [heq]
    refine ⟨(if_pos rfl).symm, ?_⟩
    show (chunk.store byte line).Booked (log ++ [])
    rw [List.append_nil]
    exact booked.store byte line
  · rw [heq, settings.note_of_logging logging, settings.note_of_logging logging]
    exact ⟨(if_neg (Nat.ne_of_gt greater)).symm, (booked.widen greater).store byte line⟩

/-- A constant: a growth of the pool is logged, and the books stay right. -/
theorem pushConstant_booked (logging : settings.logging = true) (sound : chunk.Sound)
    (booked : chunk.Booked log) {value : Value}
    (granted : (chunk.pushConstant settings value).Granted) :
    (chunk.pushConstant settings value).log
        = growth [.value] chunk.constants.capacity
            (chunk.pushConstant settings value).state.constants.capacity
      ∧ (chunk.pushConstant settings value).state.Booked
          (log ++ (chunk.pushConstant settings value).log) := by
  rcases pushConstant_granted settings sound granted with heq | ⟨n, greater, heq⟩
  · rw [heq]
    refine ⟨(if_pos rfl).symm, ?_⟩
    show (chunk.storeConstant value).Booked (log ++ [])
    rw [List.append_nil]
    exact booked.storeConstant value
  · rw [heq, settings.note_of_logging logging]
    exact ⟨(if_neg (Nat.ne_of_gt greater)).symm,
      (booked.widenConstants greater).storeConstant value⟩

/-- A release logs the storage that there is, which is what the log tells of it. -/
theorem log_release (logging : settings.logging = true) (booked : chunk.Booked log) :
    (chunk.release settings).log
      = [.released .byte (lastGrant .byte log), .released .line (lastGrant .line log),
          .released .value (lastGrant .value log)] := by
  have hlog : (chunk.release settings).log
      = settings.note (.released .byte chunk.code.capacity)
        ++ (settings.note (.released .line chunk.lines.capacity)
          ++ (settings.note (.released .value chunk.constants.values.capacity) ++ [])) := rfl
  rw [hlog, settings.note_of_logging logging, settings.note_of_logging logging,
    settings.note_of_logging logging, Buffer.capacity_eq_reserved, Buffer.capacity_eq_reserved,
    Buffer.capacity_eq_reserved, booked.code, booked.lines, booked.values,
    (booked.accounts .byte).last, (booked.accounts .line).last, (booked.accounts .value).last]
  rfl

/-- A command on a chunk whose books are right logs what it has to, and leaves the books right. -/
theorem perform_booked (logging : settings.logging = true) (sound : chunk.Sound)
    (booked : chunk.Booked log) (command : Command)
    (granted : (chunk.perform settings command).Granted) :
    (chunk.perform settings command).log
        = command.due log chunk (chunk.perform settings command).state
      ∧ (chunk.perform settings command).state.Booked
          (log ++ (chunk.perform settings command).log) := by
  cases command with
  | push byte line => exact push_booked logging sound booked granted.of_map
  | pushOpcode opcode line => exact push_booked logging sound booked granted.of_map
  | pushConstant value => exact pushConstant_booked logging sound booked granted.of_map
  | release =>
      have hlog : (chunk.perform settings .release).log = _ := log_release logging booked
      refine ⟨hlog, ?_⟩
      show empty.Booked (log ++ (chunk.perform settings .release).log)
      rw [hlog, List.append_cons, List.append_cons]
      exact Booked.released
  | _ =>
      refine ⟨rfl, ?_⟩
      show chunk.Booked (log ++ [])
      rw [List.append_nil]
      exact booked

/-- The entries of a command grow code and lines together. -/
theorem paired_due (log : List MemoryEvent) (before after : Chunk) (command : Command) :
    Paired (command.due log before after) := by
  cases command with
  | push byte line => exact paired_growth _ _
  | pushOpcode opcode line => exact paired_growth _ _
  | pushConstant value =>
      show Paired (growth [.value] before.constants.capacity after.constants.capacity)
      apply paired_of_forall
      unfold growth
      split <;> simp
  | release =>
      show Paired [.released .byte _, .released .line _, .released .value _]
      exact paired_of_forall (by simp)
  | _ =>
      show Paired []
      exact paired_of_forall (by simp)

end Perform

/-! ### Every run -/

/-- The last command of a run adds its entries to the log of the commands before it. -/
theorem logged_concat (settings : Settings) (commands : List Command) (command : Command) :
    logged settings (commands ++ [command])
      = logged settings commands ++ ((reached settings commands).perform settings command).log := by
  unfold logged
  rw [Outcome.history_concat, List.flatMap_append, List.flatMap_singleton]
  rfl

/-- The books of every chunk are right that a run reaches without being refused memory. -/
theorem booked_reached {settings : Settings} (logging : settings.logging = true)
    (commands : List Command)
    (granted : Outcome.AllGranted (Outcome.history (perform settings) .empty commands)) :
    (reached settings commands).Booked (logged settings commands) := by
  induction commands using List.reverseRecOn with
  | nil => exact booked_empty
  | append_singleton commands command ih =>
      rw [Outcome.history_concat] at granted
      have hbefore := ih fun entry hentry => granted entry (List.mem_append_left _ hentry)
      have hlast := granted _ (List.mem_append_right _ List.mem_cons_self)
      rw [reached_concat, logged_concat]
      exact (perform_booked logging (sound_reached settings commands) hbefore command hlast).2

/-- The log accounts for every buffer, under either policy, as long as no growth is refused.

* A command logs just what is due. A byte logs the growth of the code and of the lines to the new
  capacity if it has changed the capacity, and a constant logs the growth of the pool if it has
  changed that. A release logs for each of the three kinds the last capacity that the log tells of
  since the release before. In the entries of a command, code and lines grow together.
* At every moment the capacities of the chunk and of its pool are the last ones that the log tells
  of. So they can be told from the written log: where that is the same, they are.
* The capacities that the log tells of for one kind go up from one release to the next. -/
theorem log_accounts {settings : Settings} (logging : settings.logging = true)
    (commands : List Command)
    (granted : Outcome.AllGranted (Outcome.history (perform settings) .empty commands)) :
    let log := logged settings commands
    let chunk := reached settings commands
    (∀ command, (chunk.perform settings command).Granted →
      let outcome := chunk.perform settings command
      outcome.log = command.due log chunk outcome.state ∧ Paired outcome.log)
    ∧ (chunk.capacity = lastGrant .byte log ∧ chunk.capacity = lastGrant .line log
      ∧ chunk.constants.capacity = lastGrant .value log)
    ∧ (∀ settings' commands', settings'.logging = true →
      Outcome.AllGranted (Outcome.history (perform settings') .empty commands') →
      (logged settings' commands').map MemoryEvent.text = log.map MemoryEvent.text →
      (reached settings' commands').capacity = chunk.capacity
        ∧ (reached settings' commands').constants.capacity = chunk.constants.capacity)
    ∧ ∀ kind, (grants kind log).Pairwise (· < ·) := by
  intro log chunk
  have booked : chunk.Booked log := booked_reached logging commands granted
  refine ⟨?_, ⟨(booked.accounts .byte).last.symm, (booked.accounts .line).last.symm,
    (booked.accounts .value).last.symm⟩, ?_, ?_⟩
  · intro command hgranted outcome
    have hdue : outcome.log = command.due log chunk outcome.state :=
      (perform_booked logging (sound_reached settings commands) booked command hgranted).1
    refine ⟨hdue, ?_⟩
    rw [hdue]
    exact paired_due log chunk outcome.state command
  · intro settings' commands' logging' granted' htext
    have booked' := booked_reached logging' commands' granted'
    rw [MemoryEvent.text_injective.list_map htext] at booked'
    exact ⟨(booked'.accounts .byte).last.symm.trans (booked.accounts .byte).last,
      (booked'.accounts .value).last.symm.trans (booked.accounts .value).last⟩
  · intro kind
    exact List.isChain_iff_pairwise.mp (booked.accounts kind).increasing

/-- A byte and a constant, a release, and then nine bytes, which take two growths: the log tells of
the sixteen places that the chunk has room for in the end. -/
theorem log_accounts_regrown :
    let settings : Settings := { logging := true }
    let commands : List Command :=
      [.push 7 1, .pushConstant .nil, .release] ++ List.replicate 9 (.push 7 1)
    settings.logging = true
    ∧ Outcome.AllGranted (Outcome.history (perform settings) .empty commands)
    ∧ logged settings commands
      = [.reserved .byte 8, .reserved .line 8, .reserved .value 8,
          .released .byte 8, .released .line 8, .released .value 8,
          .reserved .byte 8, .reserved .line 8, .reserved .byte 16, .reserved .line 16]
    ∧ (reached settings commands).capacity = lastGrant .byte (logged settings commands) := by
  intro settings commands
  have granted : Outcome.AllGranted (Outcome.history (perform settings) .empty commands) :=
    Outcome.allGranted_of_succeeded (by decide +kernel)
  exact ⟨rfl, granted, by decide +kernel, (log_accounts rfl commands granted).2.1.1⟩

end Bytecode.Chunk
