import Bytecode.Proofs.Observation
import Bytecode.Proofs.Pool.Bookkeeping

/-!
# `Bytecode.Proofs.Pool.View`: what can be seen of a pool

The storage behind a pool cannot be seen, only its constants, their number and its capacity.
`Visible` holds these. What a sound pool answers, and what is seen of it afterwards, can be told
from them alone: `push_seen` says so of adding a constant, which is the one command that looks
at the storage, and `perform_seen_congr` of all commands, also where only one of two pools is
logged. `complete_visible` sums this up.
-/

set_option autoImplicit false

namespace Bytecode.Pool

/-- What can be seen of a pool: its constants, their number, and the capacity that it counts. -/
structure Visible where
  values : List Value
  extent : Extent

/-- What can be seen of the pool. -/
def visible (pool : Pool) : Visible := ⟨pool.values.items.toList, pool.extent⟩

/-- Adding a constant, as it is seen: the policy makes room, or the pool stays as it is. -/
def Visible.push (growth : Growth) (seen : Visible) (value : Value) :
    Except Fault Unit × Visible :=
  match growth.room .whole .value seen.extent with
  | .ok capacity => (.ok (), ⟨seen.values ++ [value], ⟨seen.extent.length + 1, capacity⟩⟩)
  | .error fault => (.error fault, seen)

/-- What is seen of adding a constant to a sound pool can be told from what was seen of the pool
before. -/
theorem push_seen (settings : Settings) {pool : Pool} (sound : pool.Sound) (value : Value) :
    (pool.push settings value).seen visible = pool.visible.push settings.growth value := by
  -- The constant is stored in the pool itself or in a wider one, which hold the same constants.
  have hstore : ∀ room : Pool, room.values.items = pool.values.items →
      (room.store value).visible
        = ⟨pool.visible.values ++ [value], ⟨pool.size + 1, room.capacity⟩⟩ := by
    intro room hitems
    have hvalues : (room.values.store value).items.toList = room.values.items.toList ++ [value] :=
      Buffer.toList_items_store room.values value
    have hsize : (room.values.store value).size = room.values.size + 1 :=
      Buffer.size_store room.values value
    show Visible.mk (room.values.store value).items.toList
      ⟨(room.values.store value).size, room.capacity⟩ = _
    rw [hvalues, hsize]
    unfold Buffer.size
    rw [hitems]
    rfl
  unfold Visible.push Growth.room push Outcome.seen
  show _ = match (if pool.size = pool.capacity
      then settings.growth.grant .whole .value pool.capacity
    else .ok pool.capacity) with
    | .ok capacity => _
    | .error fault => _
  rcases makeRoom_cases settings sound with
    ⟨room, heq⟩ | ⟨full, n, hgrant, heq⟩ | ⟨full, fault, hgrant, heq⟩
  · rw [heq, if_neg (Nat.ne_of_lt room)]
    exact congrArg (Prod.mk _) (hstore pool rfl)
  · rw [heq, if_pos full, hgrant]
    exact congrArg (Prod.mk _) (hstore (pool.widen n) rfl)
  · rw [heq, if_pos full, hgrant]
    rfl

/-- Adding a constant is refused exactly if the policy cannot make room. -/
theorem Visible.push_eq_error_iff {growth : Growth} {seen : Visible} (value : Value)
    {fault : Fault} :
    (seen.push growth value).1 = .error fault
      ↔ growth.room .whole .value seen.extent = .error fault := by
  unfold push
  cases growth.room .whole .value seen.extent with
  | ok capacity => exact ⟨nofun, nofun⟩
  | error fault => exact ⟨congrArg _ ∘ Except.error.inj, congrArg _ ∘ Except.error.inj⟩

/-- Adding a constant is refused without a visible change. -/
theorem Visible.push_refused {growth : Growth} {seen : Visible} {value : Value} {fault : Fault}
    (h : (seen.push growth value).1 = .error fault) : (seen.push growth value).2 = seen := by
  unfold push
  rw [(push_eq_error_iff value).mp h]

/-- Pools that look the same are seen to do the same under one policy, whether it is logged or
not. -/
theorem perform_seen_congr {settings settings' : Settings}
    (hgrowth : settings.growth = settings'.growth) {first second : Pool} (hfirst : first.Sound)
    (hsecond : second.Sound) (halike : first.visible = second.visible) (command : Command) :
    (first.perform settings command).seen visible
      = (second.perform settings' command).seen visible := by
  have hpush : ∀ value, (first.push settings value).seen visible
      = (second.push settings' value).seen visible := by
    intro value
    rw [push_seen settings hfirst, push_seen settings' hsecond, halike, hgrowth]
  -- Pools that look the same differ in their storage only, and no other command asks for it.
  obtain ⟨⟨values, reserved⟩, capacity⟩ := first
  obtain ⟨⟨values', reserved'⟩, capacity'⟩ := second
  obtain rfl : values = values' := Array.toList_inj.mp (congrArg Visible.values halike)
  obtain rfl : capacity = capacity' := congrArg (·.extent.capacity) halike
  cases command with
  | push value => exact Outcome.seen_map_congr (hpush value) _
  | _ => rfl

/-- What is seen of a pool is all that its commands depend on. -/
theorem complete_visible (settings : Settings) :
    Outcome.Complete (perform settings) Sound visible where
  keeps sound command := sound_perform settings sound command
  agrees hfirst hsecond halike command := perform_seen_congr rfl hfirst hsecond halike command
  refused := by
    intro pool sound command fault hrefused
    cases command with
    | push value =>
        have hresult := Outcome.map_result_eq_error hrefused
        obtain ⟨hfault, hstate⟩ :=
          Outcome.seen_of_refused (push_seen settings sound value) hresult
        exact hstate.trans (Visible.push_refused hfault)
    | release => nomatch hrefused
    | _ => rfl

end Bytecode.Pool
