import Bytecode.Proofs.Chunk.View
import Bytecode.Proofs.Pool.Settings
import Bytecode.Proofs.Text.Parts

/-!
# `Bytecode.Proofs.Chunk.Settings`: what the settings of a chunk change

The settings decide when a chunk grows and by how much, and what it logs of that. So two chunks that
are given the same commands under different settings count different capacities, and grow at
different commands. All that they have in common is what they hold (`Alike`), and `perform_agree`
says that this is enough: a command for which memory is not refused comes to the same on both, but
for the capacities that it may report.

`history_alike` is what follows for whole runs, of chunks and of pools that are used alone. Chunks
that differ in the log only are compared by what can be seen of them, which has their capacities in
it, and there the runs may be refused memory as well.
-/

set_option autoImplicit false

namespace Bytecode.Chunk

/-- Two chunks hold the same code with the same lines and the same constants, whatever capacities
they count. -/
structure Alike (first second : Chunk) : Prop where
  code : first.code.items = second.code.items
  lines : first.lines.items = second.lines.items
  size : first.size = second.size
  constants : first.constants.Alike second.constants

/-- The summary with the capacities of a chunk. -/
def Summary.counted (summary : Summary) (chunk : Chunk) : Summary :=
  { summary with
    code := ⟨summary.code.length, chunk.capacity⟩
    constants := ⟨summary.constants.length, chunk.constants.capacity⟩ }

/-- The results of a command on two chunks say the same. A summary reports the capacities of either
chunk, and a dump that of its code in the field for it. All other results are equal. -/
def ResultsAlike (first second : Chunk) (result result' : Except Fault Answer) : Command → Prop
  | .summary => ∃ summary : Summary,
      result = .ok (.summary (summary.counted first))
        ∧ result' = .ok (.summary (summary.counted second))
  | .dump format => ∃ front back,
      let text (capacity : Nat) : Text :=
        front ++ fieldText "capacity".toList (format.natural capacity) ++ back
      result = .ok (.text (text first.capacity)) ∧ result' = .ok (.text (text second.capacity))
  | _ => result = result'

/-- Two chunks have come to the same by a command: with the same answer, but for the capacities that
it reports, or the same fault, and holding the same. -/
structure Agree (command : Command) (first second : Outcome Chunk Answer) : Prop where
  result : ResultsAlike first.state second.state first.result second.result command
  state : first.state.Alike second.state

/-- Chunks with the same contents are alike. -/
theorem alike_of_items {first second : Chunk} (hcode : first.code.items = second.code.items)
    (hlines : first.lines.items = second.lines.items)
    (hconstants : first.constants.values.items = second.constants.values.items) :
    first.Alike second :=
  ⟨hcode, hlines, congrArg Array.size hcode, Pool.alike_of_values hconstants⟩

/-! ### What a command stores -/

section Stores

variable (settings : Settings) {chunk : Chunk}

/-- Where memory is not refused, a byte is accepted and put with its line after the others. -/
theorem push_stores (sound : chunk.Sound) {byte : UInt8} {line : UInt32}
    (granted : (chunk.push settings byte line).Granted) :
    (chunk.push settings byte line).result = .ok ()
      ∧ (chunk.push settings byte line).state.Alike (chunk.store byte line) := by
  rcases push_granted settings sound granted with heq | ⟨n, -, heq⟩
  · rw [heq]
    exact ⟨rfl, alike_of_items rfl rfl rfl⟩
  · rw [heq]
    exact ⟨rfl, alike_of_items rfl rfl rfl⟩

/-- Where memory is not refused, a constant is accepted, put after the others, and answered by
their number. -/
theorem pushConstant_stores (sound : chunk.Sound) {value : Value}
    (granted : (chunk.pushConstant settings value).Granted) :
    (chunk.pushConstant settings value).result = .ok chunk.constants.size
      ∧ (chunk.pushConstant settings value).state.Alike (chunk.storeConstant value) := by
  rcases pushConstant_granted settings sound granted with heq | ⟨n, -, heq⟩
  · rw [heq]
    exact ⟨rfl, alike_of_items rfl rfl rfl⟩
  · rw [heq]
    exact ⟨rfl, alike_of_items rfl rfl rfl⟩

end Stores

namespace Alike

variable {first second third : Chunk}

theorem symm (alike : first.Alike second) : second.Alike first :=
  alike_of_items alike.code.symm alike.lines.symm alike.constants.values.symm

theorem trans (alike : first.Alike second) (alike' : second.Alike third) : first.Alike third :=
  alike_of_items (alike.code.trans alike'.code) (alike.lines.trans alike'.lines)
    (alike.constants.values.trans alike'.constants.values)

/-- Chunks that hold the same still do with one more byte. -/
theorem store (alike : first.Alike second) (byte : UInt8) (line : UInt32) :
    (first.store byte line).Alike (second.store byte line) :=
  alike_of_items (congrArg (·.push byte) alike.code) (congrArg (·.push line) alike.lines)
    alike.constants.values

/-- Chunks that hold the same still do with one more constant. -/
theorem storeConstant (alike : first.Alike second) (value : Value) :
    (first.storeConstant value).Alike (second.storeConstant value) :=
  alike_of_items alike.code alike.lines (congrArg (·.push value) alike.constants.values)

/-- The dumps of chunks that hold the same differ in the field for the capacity only. -/
theorem dump (alike : first.Alike second) (format : Format) :
    ResultsAlike first second (.ok (.text (first.dump format))) (.ok (.text (second.dump format)))
      (.dump format) := by
  obtain ⟨front, back, hdump⟩ := Record.render_leaf format "Chunk".toList "capacity".toList
    [("code".toList, .list (first.code.items.toList.map fun byte => format.natural byte.toNat)),
      ("lines".toList, .list (first.lines.items.toList.map fun line => format.natural line.toNat))]
    [("constants".toList, first.constants.item format)]
  have hfirst : first.dump format
      = front ++ fieldText "capacity".toList (format.natural first.capacity) ++ back :=
    hdump (format.natural first.capacity)
  have hsecond : second.dump format
      = front ++ fieldText "capacity".toList (format.natural second.capacity) ++ back := by
    rw [← hdump, alike.code, alike.lines, Pool.item, alike.constants.values]
    rfl
  refine ⟨front, back, ?_, ?_⟩
  · rw [hfirst]
  · rw [hsecond]

end Alike

/-! ### Every command, and every run -/

/-- A command on two chunks that hold the same comes to the same, under any settings. -/
theorem perform_agree (settings settings' : Settings) {first second : Chunk}
    (hfirst : first.Sound) (hsecond : second.Sound) (alike : first.Alike second)
    (command : Command) (granted : (first.perform settings command).Granted)
    (granted' : (second.perform settings' command).Granted) :
    Agree command (first.perform settings command) (second.perform settings' command) := by
  have hpush : ∀ byte line, (first.push settings byte line).Granted →
      (second.push settings' byte line).Granted →
      (first.push settings byte line).result = (second.push settings' byte line).result
        ∧ (first.push settings byte line).state.Alike
            (second.push settings' byte line).state := by
    intro byte line hgranted hgranted'
    obtain ⟨hresult, hstored⟩ := push_stores settings hfirst hgranted
    obtain ⟨hresult', hstored'⟩ := push_stores settings' hsecond hgranted'
    exact ⟨hresult.trans hresult'.symm,
      hstored.trans ((alike.store byte line).trans hstored'.symm)⟩
  cases command with
  | push byte line =>
      obtain ⟨hresult, hstate⟩ := hpush byte line granted.of_map granted'.of_map
      exact ⟨congrArg (Except.map fun _ => Answer.done) hresult, hstate⟩
  | pushOpcode opcode line =>
      obtain ⟨hresult, hstate⟩ := hpush opcode.toByte line granted.of_map granted'.of_map
      exact ⟨congrArg (Except.map fun _ => Answer.done) hresult, hstate⟩
  | pushConstant value =>
      obtain ⟨hresult, hstored⟩ := pushConstant_stores settings hfirst granted.of_map
      obtain ⟨hresult', hstored'⟩ := pushConstant_stores settings' hsecond granted'.of_map
      rw [← alike.constants.size] at hresult'
      exact ⟨congrArg (Except.map Answer.index) (hresult.trans hresult'.symm),
        hstored.trans ((alike.storeConstant value).trans hstored'.symm)⟩
  | release => exact ⟨rfl, alike_of_items rfl rfl rfl⟩
  | summary =>
      refine ⟨⟨first.summary, rfl, ?_⟩, alike⟩
      show Except.ok (Answer.summary second.summary) = _
      unfold Summary.counted summary extent Pool.extent isEmpty Pool.isEmpty
      rw [alike.size, alike.constants.size]
      rfl
  | walk offset =>
      have hwalk := walk_congr alike.code alike.lines alike.constants.values offset
      exact ⟨congrArg (fun listing => Except.ok (Answer.listing listing)) hwalk, alike⟩
  | dump format => exact ⟨alike.dump format, alike⟩
  | _ =>
      -- The other commands read the code, the lines or the constants.
      obtain ⟨⟨code, _⟩, ⟨lines, _⟩, _, ⟨⟨values, _⟩, _⟩⟩ := first
      obtain ⟨⟨code', _⟩, ⟨lines', _⟩, _, ⟨⟨values', _⟩, _⟩⟩ := second
      obtain rfl : code = code' := alike.code
      obtain rfl : lines = lines' := alike.lines
      obtain rfl : values = values' := alike.constants.values
      exact ⟨rfl, alike⟩

/-- Chunks under any settings agree after every command of a run in which memory is not refused. -/
theorem history_agree (settings settings' : Settings) (commands : List Command)
    (granted : Outcome.AllGranted (Outcome.history (perform settings) .empty commands))
    (granted' : Outcome.AllGranted (Outcome.history (perform settings') .empty commands)) :
    Outcome.InStep Agree (Outcome.history (perform settings) .empty commands)
      (Outcome.history (perform settings') .empty commands) := by
  refine Outcome.history_inStep Alike Outcome.Granted Outcome.Granted (sound_perform settings)
    (sound_perform settings') ?_ commands sound_empty sound_empty (alike_of_items rfl rfl rfl)
    granted granted'
  intro first second hfirst hsecond alike command hgranted hgranted'
  have agree := perform_agree settings settings' hfirst hsecond alike command hgranted hgranted'
  exact ⟨agree, agree.state⟩

/-- The settings change nothing but capacities and the log. Two runs of the same commands under any
two settings, neither of which is refused memory, come to the same at every command: the results are
the same, but for the capacities in a summary and in the dump of a chunk, and the chunks hold the
same code, lines and constants after it. Where the settings have one policy, and differ in the log
at most, this takes no condition, and all that is seen of the runs is the same: the results with the
capacities in them, refusals too, and the capacities after every command. Both hold of pools that
are used alone as well. -/
theorem history_alike (first second : Settings) :
    (∀ commands,
      Outcome.AllGranted (Outcome.history (perform first) .empty commands) →
      Outcome.AllGranted (Outcome.history (perform second) .empty commands) →
      Outcome.InStep Agree (Outcome.history (perform first) .empty commands)
        (Outcome.history (perform second) .empty commands))
    ∧ (first.growth = second.growth → ∀ commands,
      Outcome.InStep (fun _ outcome outcome' => outcome.seen visible = outcome'.seen visible)
        (Outcome.history (perform first) .empty commands)
        (Outcome.history (perform second) .empty commands))
    ∧ (∀ commands,
      Outcome.AllGranted (Outcome.history (Pool.perform first) .empty commands) →
      Outcome.AllGranted (Outcome.history (Pool.perform second) .empty commands) →
      Outcome.InStep Pool.Agree (Outcome.history (Pool.perform first) .empty commands)
        (Outcome.history (Pool.perform second) .empty commands))
    ∧ (first.growth = second.growth → ∀ commands,
      Outcome.InStep
        (fun _ outcome outcome' => outcome.seen Pool.visible = outcome'.seen Pool.visible)
        (Outcome.history (Pool.perform first) .empty commands)
        (Outcome.history (Pool.perform second) .empty commands)) := by
  refine ⟨history_agree first second, ?_, Pool.history_agree first second, Pool.history_seen⟩
  intro hgrowth commands
  exact Outcome.history_seen (complete_visible first) (complete_visible second)
    (perform_seen_congr hgrowth) commands sound_empty

/-- Nine bytes and a constant: under doubling the chunk has room for sixteen bytes then, and
stepwise for nine. A walk of either, a summary and a dump say the same but for that. Under doubling
with a log all is seen to be the same as without. -/
theorem history_alike_nine :
    let commands : List Command :=
      List.replicate 9 (.pushOpcode .ret 1) ++ [.pushConstant .nil, .walk 0, .summary, .dump {}]
    let doubled := Outcome.history (perform {}) .empty commands
    let stepped := Outcome.history (perform ⟨.stepwise, true⟩) .empty commands
    Outcome.AllGranted doubled ∧ Outcome.AllGranted stepped
      ∧ (reached {} commands).capacity = 16
      ∧ (reached ⟨.stepwise, true⟩ commands).capacity = 9
      ∧ Outcome.InStep Agree doubled stepped
      ∧ Outcome.InStep (fun _ outcome outcome' => outcome.seen visible = outcome'.seen visible)
          doubled (Outcome.history (perform ⟨.doubling, true⟩) .empty commands) := by
  intro commands doubled stepped
  have hdoubled : Outcome.AllGranted doubled :=
    Outcome.allGranted_of_succeeded (by decide +kernel)
  have hstepped : Outcome.AllGranted stepped :=
    Outcome.allGranted_of_succeeded (by decide +kernel)
  exact ⟨hdoubled, hstepped, by decide +kernel, by decide +kernel,
    (history_alike {} ⟨.stepwise, true⟩).1 commands hdoubled hstepped,
    (history_alike {} ⟨.doubling, true⟩).2.1 rfl commands⟩

end Bytecode.Chunk
