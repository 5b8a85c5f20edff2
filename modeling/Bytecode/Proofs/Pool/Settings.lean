import Bytecode.Proofs.Lockstep
import Bytecode.Proofs.Pool.View

/-!
# `Bytecode.Proofs.Pool.Settings`: what the settings of a pool change

The settings decide when a pool grows and by how much, and what it logs of that. They do not decide
what is in it: as long as memory is not refused, two pools under different settings hold the same
constants after the same commands, and answer the same (`history_agree`). Where only one of two
pools is logged, they cannot be told apart at all (`history_seen`).
-/

set_option autoImplicit false

namespace Bytecode.Pool

/-- Two pools hold the same constants, whatever capacities they count. -/
structure Alike (first second : Pool) : Prop where
  values : first.values.items = second.values.items
  size : first.size = second.size

/-- Two pools have come to the same by a command: with the same answer, or the same fault, and
holding the same constants. -/
structure Agree (_command : Command) (first second : Outcome Pool Answer) : Prop where
  result : first.result = second.result
  state : first.state.Alike second.state

/-- Pools with the same constants are alike. -/
theorem alike_of_values {first second : Pool} (h : first.values.items = second.values.items) :
    first.Alike second := ⟨h, congrArg Array.size h⟩

/-- Where memory is not refused, a constant is accepted and put after the others. -/
theorem push_stores (settings : Settings) {pool : Pool} (sound : pool.Sound) {value : Value}
    (granted : (pool.push settings value).Granted) :
    (pool.push settings value).result = .ok ()
      ∧ (pool.push settings value).state.values.items = pool.values.items.push value := by
  rcases push_granted settings sound granted with heq | ⟨n, -, heq⟩
  · rw [heq]
    exact ⟨rfl, rfl⟩
  · rw [heq]
    exact ⟨rfl, rfl⟩

/-- A command on two pools that hold the same comes to the same, under any settings. -/
theorem perform_agree (settings settings' : Settings) {first second : Pool} (hfirst : first.Sound)
    (hsecond : second.Sound) (alike : first.Alike second) (command : Command)
    (granted : (first.perform settings command).Granted)
    (granted' : (second.perform settings' command).Granted) :
    Agree command (first.perform settings command) (second.perform settings' command) := by
  cases command with
  | push value =>
      obtain ⟨hresult, hvalues⟩ := push_stores settings hfirst granted.of_map
      obtain ⟨hresult', hvalues'⟩ := push_stores settings' hsecond granted'.of_map
      refine ⟨?_, alike_of_values ?_⟩
      · show (first.push settings value).result.map _ = (second.push settings' value).result.map _
        rw [hresult, hresult']
      · show (first.push settings value).state.values.items
          = (second.push settings' value).state.values.items
        rw [hvalues, hvalues', alike.values]
  | release => exact ⟨rfl, rfl, rfl⟩
  | _ =>
      -- A read asks for the constants only.
      obtain ⟨⟨values, _⟩, _⟩ := first
      obtain ⟨⟨values', _⟩, _⟩ := second
      obtain rfl : values = values' := alike.values
      exact ⟨rfl, rfl, rfl⟩

/-- Pools under any settings agree after every command of a run in which memory is not refused. -/
theorem history_agree (settings settings' : Settings) (commands : List Command)
    (granted : Outcome.AllGranted (Outcome.history (perform settings) .empty commands))
    (granted' : Outcome.AllGranted (Outcome.history (perform settings') .empty commands)) :
    Outcome.InStep Agree (Outcome.history (perform settings) .empty commands)
      (Outcome.history (perform settings') .empty commands) := by
  refine Outcome.history_inStep Alike Outcome.Granted Outcome.Granted (sound_perform settings)
    (sound_perform settings') ?_ commands sound_empty sound_empty (alike_of_values rfl) granted
    granted'
  intro first second hfirst hsecond alike command hgranted hgranted'
  have agree := perform_agree settings settings' hfirst hsecond alike command hgranted hgranted'
  exact ⟨agree, agree.state⟩

/-- Under one policy pools are seen to do the same in every run, whether they are logged or not. -/
theorem history_seen {settings settings' : Settings} (hgrowth : settings.growth = settings'.growth)
    (commands : List Command) :
    Outcome.InStep (fun _ outcome outcome' => outcome.seen visible = outcome'.seen visible)
      (Outcome.history (perform settings) .empty commands)
      (Outcome.history (perform settings') .empty commands) :=
  Outcome.history_seen (complete_visible settings) (complete_visible settings')
    (perform_seen_congr hgrowth) commands sound_empty

end Bytecode.Pool
