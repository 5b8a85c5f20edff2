import Mathlib.Algebra.Order.Ring.Nat
import Mathlib.Data.List.DropRight
import Bytecode.Proofs.Memory.Room
import Bytecode.Proofs.Observation

/-!
# `Bytecode.Proofs.Memory.Reservation`: a buffer keeps its word

A buffer that is used on its own can be asked for any amount of room at any time, so its capacity
need not be one that the growth policy would have come to. Elements that take no memory are covered
too: of them a buffer has room for any machine word.

The heap is any heap. On the whole one (`Heap.whole`) a request is refused only for more than
`2 ^ 63 - 1` bytes, and on others for more than they have.

* `Growth.room_eq_error_iff_wanted` says when a store is refused room for one more element, in terms
  of the capacity that it asks for, and with what fault.
* `reserve_cases` and `push_cases` say what the two fallible commands come to, and `performOn_cases`
  is the step: a command other than a release is refused and changes nothing, or it puts its element
  after the others and leaves no less room than there was.
* `stored_reached`: the elements are those that have been accepted since the last release.
* `KeepsRoom` is what can be relied on in any state, and `reservations_kept` says that every run
  leads to such a state. Room that has been granted is there until the next release.
-/

set_option autoImplicit false

namespace Bytecode

namespace Growth

/-- The capacity that a full store asks for, as a number of any size. -/
def wanted (growth : Growth) (capacity : Nat) : Nat :=
  if capacity < minCapacity then minCapacity else growth.raise capacity

/-- The policy names the capacity that is asked for, if it is a machine word. -/
theorem next_eq (growth : Growth) (capacity : Nat) :
    growth.next capacity
      = if growth.wanted capacity ≤ maxWord then .ok (growth.wanted capacity)
        else .error (.outOfMemory maxWord) := by
  unfold next wanted
  split
  · rw [if_pos (by decide)]
  · rfl

/-- The policy names machine words only. -/
theorem le_maxWord_of_next {growth : Growth} {capacity n : Nat} (h : growth.next capacity = .ok n) :
    n ≤ maxWord := by
  rw [next_eq] at h
  split at h
  · rename_i hword
    obtain rfl := Except.ok.inj h
    exact hword
  · nomatch h

/-- A store is refused room for one more element exactly if it is full and the capacity that it asks
for is no machine word, or one that the heap does not have. The fault names that capacity, as far
as it can be named. -/
theorem room_eq_error_iff_wanted {growth : Growth} {heap : Heap} {kind : ElementKind}
    {extent : Extent} {fault : Fault} :
    growth.room heap kind extent = .error fault
      ↔ extent.length = extent.capacity
        ∧ (maxWord < growth.wanted extent.capacity
          ∨ heap.limit < growth.wanted extent.capacity * kind.bytes)
        ∧ fault = .outOfMemory (min (growth.wanted extent.capacity) maxWord) := by
  unfold room grant
  rw [next_eq]
  by_cases full : extent.length = extent.capacity
  · by_cases hword : growth.wanted extent.capacity ≤ maxWord
    · by_cases hfits : growth.wanted extent.capacity * kind.bytes ≤ heap.limit
      · simp [full, hword, hfits, Nat.not_lt.mpr hword, Nat.not_lt.mpr hfits]
      · simp [full, hword, hfits, Nat.lt_of_not_le hfits, eq_comm]
    · have hlt : maxWord < growth.wanted extent.capacity := Nat.lt_of_not_le hword
      simp [full, hword, hlt, Nat.min_eq_right hlt.le, eq_comm]
  · simp [full]

end Growth

namespace Buffer

variable {α : Type}

/-- The command gives the storage back. -/
def Command.isRelease : Command α → Bool
  | release => true
  | _ => false

/-- No other command does. -/
theorem Command.eq_release {command : Command α} (hrelease : command.isRelease = true) :
    command = .release := by
  cases command with
  | release => rfl
  | _ => nomatch hrelease

/-- The element that a command adds once it is accepted. -/
def Command.adds? : Command α → Option α
  | push element => some element
  | _ => none

/-- The element that an entry of a history has added, if its command was accepted. -/
def added? (entry : Command α × Outcome (Buffer α) (Answer α)) : Option α :=
  if Outcome.succeeded entry then entry.1.adds? else none

/-- The elements that have been accepted since the last release, in order. -/
def stored (history : List (Command α × Outcome (Buffer α) (Answer α))) : List α :=
  (history.rtakeWhile fun entry => !entry.1.isRelease).filterMap added?

section Stored

variable (entries : List (Command α × Outcome (Buffer α) (Answer α))) {command : Command α}
  (outcome : Outcome (Buffer α) (Answer α))

/-- After a release nothing is stored. -/
theorem stored_concat_release (hrelease : command.isRelease = true) :
    stored (entries ++ [(command, outcome)]) = [] := by
  unfold stored
  rw [List.rtakeWhile_concat_neg _ _ _ (by simp [hrelease])]
  rfl

/-- Any other command stores its element, if it was accepted. -/
theorem stored_concat (hrelease : command.isRelease = false) :
    stored (entries ++ [(command, outcome)])
      = stored entries ++ (added? (command, outcome)).toList := by
  unfold stored
  rw [List.rtakeWhile_concat_pos _ _ _ (by simp [hrelease]), List.filterMap_append]
  cases hentry : added? (command, outcome) <;> simp [hentry]

end Stored

variable [Element α]

/-- How full the buffer is. -/
def extent (buffer : Buffer α) : Extent := ⟨buffer.size, buffer.capacity⟩

/-- There are no more elements than there is room for, and the heap has what has been reserved. -/
structure Sound (heap : Heap) (buffer : Buffer α) : Prop where
  size_le : buffer.size ≤ buffer.capacity
  granted : buffer.reserved * (Element.kind α).bytes ≤ heap.limit

/-- The buffer is sound, has the elements of another one, and has room for `capacity` of them. -/
structure Resized (heap : Heap) (before : Buffer α) (capacity : Nat) (after : Buffer α) : Prop where
  sound : after.Sound heap
  items : after.items = before.items
  capacity : after.capacity = capacity

/-- The empty buffer is sound. -/
theorem sound_empty {heap : Heap} : (empty : Buffer α).Sound heap :=
  ⟨Nat.zero_le _, backs_empty.granted⟩

variable {heap : Heap} {buffer after : Buffer α} {capacity : Nat}

/-- Storing into a free place keeps a buffer sound. -/
theorem Sound.store (sound : buffer.Sound heap) (room : buffer.size < buffer.capacity)
    (element : α) : (buffer.store element).Sound heap where
  size_le := by
    rw [size_store]
    exact room
  granted := sound.granted

/-- A buffer with the same elements has as many of them. -/
theorem Resized.size_eq (resized : Resized heap buffer capacity after) :
    after.size = buffer.size :=
  congrArg Array.size resized.items

/-- Any heap has any number of elements that take no memory. -/
theorem fits_of_bytes_eq_zero (hbytes : (Element.kind α).bytes = 0) (heap : Heap) (n : Nat) :
    n * (Element.kind α).bytes ≤ heap.limit := by
  rw [hbytes, Nat.mul_zero]
  exact Nat.zero_le _

variable (settings : Settings)

/-! ### Requests -/

/-- A request for room, of elements that take no memory. There is room for any machine word of
them, so that no request is refused, and the room is what it was. -/
theorem reserve_of_bytes_eq_zero (sound : buffer.Sound heap)
    (hbytes : (Element.kind α).bytes = 0) (n : Nat) :
    ∃ after log, buffer.reserve heap settings n = ⟨.ok (), after, log⟩
      ∧ Resized heap buffer (max buffer.capacity (min n maxWord)) after := by
  have hcapacity : ∀ other : Buffer α, other.capacity = maxWord := fun other => if_pos hbytes
  have hsize := sound.size_le
  have hmax : max maxWord (min n maxWord) = maxWord := Nat.max_eq_left (Nat.min_le_right n maxWord)
  unfold reserve
  rw [hcapacity] at hsize ⊢
  rw [hmax]
  split
  · exact ⟨buffer, _, rfl, sound, rfl, hcapacity buffer⟩
  · rw [if_neg (Nat.not_lt.mpr (fits_of_bytes_eq_zero hbytes heap _))]
    refine ⟨_, _, rfl, ⟨?_, fits_of_bytes_eq_zero hbytes heap _⟩, rfl, hcapacity _⟩
    rw [hcapacity]
    exact hsize

/-- A request for room. It is granted if it is for no more bytes than the heap has, and there is
room for the greater number then. Otherwise nothing changes. -/
theorem reserve_cases (sound : buffer.Sound heap) (n : Nat) :
    (n * (Element.kind α).bytes ≤ heap.limit
        ∧ ∃ after log, buffer.reserve heap settings n = ⟨.ok (), after, log⟩
          ∧ Resized heap buffer (max buffer.capacity (min n maxWord)) after)
      ∨ (heap.limit < n * (Element.kind α).bytes
        ∧ buffer.reserve heap settings n = .refuse buffer (.outOfMemory n)) := by
  by_cases hbytes : (Element.kind α).bytes = 0
  · exact .inl
      ⟨fits_of_bytes_eq_zero hbytes heap n, reserve_of_bytes_eq_zero settings sound hbytes n⟩
  · -- Elements that take memory have the room that has been reserved, and can serve a store of it.
    have : Sized α := ⟨Nat.pos_of_ne_zero hbytes⟩
    have hreserved := capacity_eq_reserved buffer
    have backs : buffer.Backs heap buffer.capacity :=
      ⟨sound.size_le, Nat.le_of_eq hreserved, sound.granted⟩
    rw [reserve_eq settings backs n]
    by_cases hfits : n * (Element.kind α).bytes ≤ heap.limit
    · left
      have hword : min n maxWord = n := by
        -- The number is no greater than its bytes, and no heap has more bytes than a word counts.
        have hle : n ≤ n * (Element.kind α).bytes := Nat.le_mul_of_pos_right n Sized.bytes_pos
        have hlimit : heap.limit ≤ maxWord := Nat.le_trans heap.limit_le (by decide)
        exact Nat.min_eq_left (Nat.le_trans hle (Nat.le_trans hfits hlimit))
      have hcapacity : (buffer.widen n).capacity = max buffer.capacity n := by
        rw [capacity_eq_reserved, hreserved]
        rfl
      rw [if_pos hfits, hword]
      refine ⟨hfits, _, _, rfl, ⟨?_, (backs.spare hfits).granted⟩, rfl, hcapacity⟩
      rw [hcapacity]
      exact Nat.le_trans sound.size_le (Nat.le_max_left _ n)
    · right
      rw [if_neg hfits]
      exact ⟨Nat.lt_of_not_le hfits, rfl⟩

/-- Room for one more element. It is made as the policy says for a store that is as full, and then
there is a free place. Otherwise nothing changes. -/
theorem makeRoom_cases (sound : buffer.Sound heap) :
    (∃ capacity after log, settings.growth.room heap (Element.kind α) buffer.extent = .ok capacity
        ∧ buffer.makeRoom heap settings = ⟨.ok (), after, log⟩
        ∧ Resized heap buffer capacity after ∧ buffer.capacity ≤ capacity ∧ buffer.size < capacity)
      ∨ ∃ fault, settings.growth.room heap (Element.kind α) buffer.extent = .error fault
          ∧ buffer.makeRoom heap settings = .refuse buffer fault := by
  rcases Nat.lt_or_eq_of_le sound.size_le with room | full
  · left
    exact ⟨buffer.capacity, buffer, [], if_neg (Nat.ne_of_lt room), if_neg (Nat.ne_of_lt room),
      ⟨sound, rfl, rfl⟩, Nat.le_refl _, room⟩
  · -- A full buffer asks the policy for a capacity, and the heap for room for as many.
    have hroom : settings.growth.room heap (Element.kind α) buffer.extent
        = settings.growth.grant heap (Element.kind α) buffer.capacity := if_pos full
    have hmake : buffer.makeRoom heap settings
        = (Outcome.read buffer (settings.growth.next buffer.capacity)).andThen
          (reserve heap settings) := if_pos full
    rw [hroom, hmake]
    unfold Growth.grant
    cases hnext : settings.growth.next buffer.capacity with
    | error fault => exact .inr ⟨fault, rfl, rfl⟩
    | ok n =>
        have hreserve : (Outcome.read buffer (.ok n)).andThen (reserve heap settings)
            = buffer.reserve heap settings n := rfl
        rw [hreserve]
        rcases reserve_cases settings sound n with
          ⟨hfits, after, log, heq, resized⟩ | ⟨hlimit, heq⟩
        · left
          have hlt : buffer.capacity < n := Growth.lt_of_next hnext
          rw [Nat.min_eq_left (Growth.le_maxWord_of_next hnext), Nat.max_eq_right hlt.le] at resized
          exact ⟨n, after, log, if_pos hfits, heq, resized, hlt.le, full ▸ hlt⟩
        · right
          exact ⟨.outOfMemory n, if_neg (Nat.not_le.mpr hlimit), heq⟩

/-- Adding an element. If there is room for it then it comes after the others, and there is no less
room than before. Otherwise nothing changes. -/
theorem push_cases (sound : buffer.Sound heap) (element : α) :
    (∃ capacity after log, settings.growth.room heap (Element.kind α) buffer.extent = .ok capacity
        ∧ buffer.push heap settings element = ⟨.ok (), after, log⟩ ∧ after.Sound heap
        ∧ after.items = buffer.items.push element
        ∧ after.capacity = capacity ∧ buffer.capacity ≤ capacity)
      ∨ ∃ fault, settings.growth.room heap (Element.kind α) buffer.extent = .error fault
          ∧ buffer.push heap settings element = .refuse buffer fault := by
  unfold push
  rcases makeRoom_cases settings sound with
    ⟨capacity, room, log, hroom, heq, resized, hle, hlt⟩ | ⟨fault, hroom, heq⟩
  · left
    have hfree : room.size < room.capacity := by
      rw [resized.size_eq, resized.capacity]
      exact hlt
    rw [heq, Outcome.andThen_ok_ok]
    refine ⟨capacity, room.store element, log, hroom, rfl, resized.sound.store hfree element, ?_,
      resized.capacity, hle⟩
    rw [← resized.items]
    rfl
  · right
    rw [heq]
    exact ⟨fault, hroom, rfl⟩

/-! ### The step -/

/-- A request for room, as a command. -/
theorem performOn_reserve (n : Nat) :
    buffer.performOn heap settings (.reserve n)
      = (buffer.reserve heap settings n).map fun _ => .done := rfl

/-- A new element, as a command. -/
theorem performOn_push (element : α) :
    buffer.performOn heap settings (.push element)
      = (buffer.push heap settings element).map fun _ => .done := rfl

/-- A command other than a release is refused and changes nothing, or its element comes after the
others and there is no less room than before. -/
theorem performOn_cases (sound : buffer.Sound heap) {command : Command α}
    (hrelease : command.isRelease = false) :
    (∃ answer after log, buffer.performOn heap settings command = ⟨.ok answer, after, log⟩
        ∧ after.Sound heap
        ∧ after.items.toList = buffer.items.toList ++ command.adds?.toList
        ∧ buffer.capacity ≤ after.capacity)
      ∨ ∃ fault, buffer.performOn heap settings command = .refuse buffer fault := by
  cases command with
  | reserve n =>
      rw [performOn_reserve]
      rcases reserve_cases settings sound n with ⟨-, after, log, heq, resized⟩ | ⟨-, heq⟩
      · left
        refine ⟨.done, after, log, heq ▸ rfl, resized.sound, ?_, ?_⟩
        · rw [resized.items]
          exact (List.append_nil _).symm
        · rw [resized.capacity]
          exact Nat.le_max_left _ _
      · right
        exact ⟨.outOfMemory n, heq ▸ rfl⟩
  | push element =>
      rw [performOn_push]
      rcases push_cases settings sound element with
        ⟨capacity, after, log, -, heq, hsound, hitems, hcapacity, hle⟩ | ⟨fault, -, heq⟩
      · left
        refine ⟨.done, after, log, heq ▸ rfl, hsound, ?_, hcapacity ▸ hle⟩
        rw [hitems]
        exact Array.toList_push
      · right
        exact ⟨fault, heq ▸ rfl⟩
  | release => nomatch hrelease
  | items => exact .inl ⟨_, buffer, [], rfl, sound, (List.append_nil _).symm, Nat.le_refl _⟩

/-- No command leaves a sound buffer unsound. After a release it is the empty one. -/
theorem sound_performOn (sound : buffer.Sound heap) (command : Command α) :
    (buffer.performOn heap settings command).state.Sound heap := by
  cases hrelease : command.isRelease with
  | true =>
      obtain rfl := Command.eq_release hrelease
      exact sound_empty
  | false =>
      rcases performOn_cases settings sound hrelease with
        ⟨answer, after, log, heq, hsound, -, -⟩ | ⟨fault, heq⟩
      · rw [heq]
        exact hsound
      · rw [heq]
        exact sound

/-- No command but a release takes room away. -/
theorem capacity_le_performOn (sound : buffer.Sound heap) {command : Command α}
    (hrelease : command.isRelease = false) :
    buffer.capacity ≤ (buffer.performOn heap settings command).state.capacity := by
  rcases performOn_cases settings sound hrelease with
    ⟨answer, after, log, heq, -, -, hle⟩ | ⟨fault, heq⟩
  · rw [heq]
    exact hle
  · rw [heq]
    exact Nat.le_refl _

/-! ### The run -/

/-- The buffer after a run of commands on the empty one. -/
def reached (heap : Heap) (settings : Settings) (commands : List (Command α)) : Buffer α :=
  Outcome.stateAfter (performOn heap settings) .empty commands

/-- A run of commands on the empty buffer written down. -/
def history (heap : Heap) (settings : Settings) (commands : List (Command α)) :
    List (Command α × Outcome (Buffer α) (Answer α)) :=
  Outcome.history (performOn heap settings) .empty commands

/-- Every buffer that a run reaches is sound. -/
theorem sound_reached (commands : List (Command α)) : (reached heap settings commands).Sound heap :=
  Outcome.stateAfter_induction (performOn heap settings) .empty sound_empty
    (fun _ command sound => sound_performOn settings sound command) commands

/-- After any run the elements are those that have been accepted since the last release. -/
theorem stored_reached (commands : List (Command α)) :
    (reached heap settings commands).items.toList = stored (history heap settings commands) := by
  induction commands using List.reverseRecOn with
  | nil => rfl
  | append_singleton commands command ih =>
      have hreached : reached heap settings (commands ++ [command])
          = ((reached heap settings commands).performOn heap settings command).state :=
        Outcome.stateAfter_concat (performOn heap settings) .empty commands command
      have hhistory : history heap settings (commands ++ [command])
          = history heap settings commands
            ++ [(command, (reached heap settings commands).performOn heap settings command)] :=
        Outcome.history_concat (performOn heap settings) .empty commands command
      rw [hreached, hhistory]
      cases hrelease : command.isRelease with
      | true =>
          rw [stored_concat_release _ _ hrelease]
          obtain rfl := Command.eq_release hrelease
          rfl
      | false =>
          rw [stored_concat _ _ hrelease, ← ih]
          rcases performOn_cases settings (sound_reached settings commands) hrelease with
            ⟨answer, after, log, heq, -, hitems, -⟩ | ⟨fault, heq⟩
          · rw [heq]
            exact hitems
          · rw [heq]
            exact (List.append_nil _).symm

/-- As long as nothing is released, a sound buffer stays sound and keeps its room. -/
theorem capacity_le_stateAfter {further : List (Command α)}
    (hfurther : ∀ command ∈ further, command.isRelease = false) (sound : buffer.Sound heap) :
    (Outcome.stateAfter (performOn heap settings) buffer further).Sound heap
      ∧ buffer.capacity
        ≤ (Outcome.stateAfter (performOn heap settings) buffer further).capacity := by
  induction further generalizing buffer with
  | nil => exact ⟨sound, Nat.le_refl _⟩
  | cons command further ih =>
      have hrelease := hfurther command List.mem_cons_self
      have hrest := fun other hother => hfurther other (List.mem_cons_of_mem command hother)
      obtain ⟨hsound, hle⟩ := ih hrest (sound_performOn settings sound command)
      exact ⟨hsound, Nat.le_trans (capacity_le_performOn settings sound hrelease) hle⟩

/-! ### What can be relied on -/

/-- A buffer keeps its word about room. There are no more elements than room for them, and only a
release takes room away. A granted request leaves room for as many elements as it was for, or for
more if there was more, and until the next release that many elements can be added without another
growth. A request is refused if it takes more bytes than the heap has, and an element if the buffer
is full and cannot have the capacity that it asks for. The fault names the number of elements that
were asked for, and the buffer is as it was. -/
structure KeepsRoom (heap : Heap) (settings : Settings) (buffer : Buffer α) : Prop where
  size_le : buffer.size ≤ buffer.capacity
  capacity_le : ∀ command, command.isRelease = false →
    buffer.capacity ≤ (buffer.performOn heap settings command).state.capacity
  reserve_capacity : ∀ (n : UInt64) answer,
    (buffer.performOn heap settings (.reserve n.toNat)).result = .ok answer →
      (buffer.performOn heap settings (.reserve n.toNat)).state.capacity
        = max buffer.capacity n.toNat
  reserve_lasts : ∀ (n : UInt64) answer,
    (buffer.performOn heap settings (.reserve n.toNat)).result = .ok answer →
      ∀ further : List (Command α), (∀ command ∈ further, command.isRelease = false) →
        let later := Outcome.stateAfter (performOn heap settings)
          (buffer.performOn heap settings (.reserve n.toNat)).state further
        later.size < n.toNat → ∀ element,
          (later.performOn heap settings (.push element)).result = .ok .done
            ∧ (later.performOn heap settings (.push element)).state.capacity = later.capacity
  reserve_refused_iff : ∀ n : UInt64,
    (∃ fault, (buffer.performOn heap settings (.reserve n.toNat)).result = .error fault)
      ↔ (Element.kind α).bytes ≠ 0 ∧ heap.limit < n.toNat * (Element.kind α).bytes
  reserve_fault : ∀ (n : UInt64) fault,
    (buffer.performOn heap settings (.reserve n.toNat)).result = .error fault →
      fault = .outOfMemory n.toNat
  push_refused_iff : ∀ element,
    (∃ fault, (buffer.performOn heap settings (.push element)).result = .error fault)
      ↔ buffer.size = buffer.capacity
        ∧ (2 ^ 64 - 1 < settings.growth.wanted buffer.capacity
          ∨ heap.limit < settings.growth.wanted buffer.capacity * (Element.kind α).bytes)
  push_fault : ∀ element fault,
    (buffer.performOn heap settings (.push element)).result = .error fault →
      fault = .outOfMemory (min (settings.growth.wanted buffer.capacity) (2 ^ 64 - 1))
  refused : ∀ command fault, (buffer.performOn heap settings command).result = .error fault →
    (buffer.performOn heap settings command).state = buffer

/-- A refused command leaves a buffer as it was. -/
theorem state_of_refused (sound : buffer.Sound heap) {command : Command α} {fault : Fault}
    (hrefused : (buffer.performOn heap settings command).result = .error fault) :
    (buffer.performOn heap settings command).state = buffer := by
  cases hrelease : command.isRelease with
  | true =>
      obtain rfl := Command.eq_release hrelease
      nomatch hrefused
  | false =>
      rcases performOn_cases settings sound hrelease with
        ⟨answer, after, log, heq, -⟩ | ⟨other, heq⟩
      · rw [heq] at hrefused
        nomatch hrefused
      · rw [heq]
        rfl

/-- A request for room is refused with the number that was asked for, if it takes more bytes than
the heap has. -/
theorem reserve_eq_error_iff (sound : buffer.Sound heap) {n : Nat} {fault : Fault} :
    (buffer.performOn heap settings (.reserve n)).result = .error fault
      ↔ heap.limit < n * (Element.kind α).bytes ∧ fault = .outOfMemory n := by
  rw [performOn_reserve]
  rcases reserve_cases settings sound n with ⟨hfits, after, log, heq, -⟩ | ⟨hlimit, heq⟩
  · rw [heq]
    exact ⟨nofun, fun h => absurd h.1 (Nat.not_lt.mpr hfits)⟩
  · rw [heq]
    refine ⟨fun h => ⟨hlimit, (Except.error.inj h).symm⟩, ?_⟩
    rintro ⟨-, rfl⟩
    rfl

/-- A granted request leaves room for the greater number. -/
theorem capacity_of_reserve_ok (sound : buffer.Sound heap) {n : UInt64} {answer : Answer α}
    (hgranted : (buffer.performOn heap settings (.reserve n.toNat)).result = .ok answer) :
    (buffer.performOn heap settings (.reserve n.toNat)).state.capacity
      = max buffer.capacity n.toNat := by
  have hword : n.toNat ≤ maxWord := Nat.le_of_lt_succ n.toNat_lt
  rw [performOn_reserve] at hgranted ⊢
  rcases reserve_cases settings sound n.toNat with ⟨-, after, log, heq, resized⟩ | ⟨-, heq⟩
  · rw [heq]
    exact Nat.min_eq_left hword ▸ resized.capacity
  · rw [heq] at hgranted
    nomatch hgranted

/-- An element is refused with the fault that the policy has for a store that is as full. -/
theorem push_eq_error_iff (sound : buffer.Sound heap) {element : α} {fault : Fault} :
    (buffer.performOn heap settings (.push element)).result = .error fault
      ↔ settings.growth.room heap (Element.kind α) buffer.extent = .error fault := by
  rw [performOn_push]
  rcases push_cases settings sound element with
    ⟨capacity, after, log, hroom, heq, -⟩ | ⟨other, hroom, heq⟩
  · rw [heq, hroom]
    exact ⟨nofun, nofun⟩
  · rw [heq, hroom]
    exact ⟨congrArg _ ∘ Except.error.inj, congrArg _ ∘ Except.error.inj⟩

/-- Where there is a free place, an element is stored without a growth. -/
theorem performOn_push_of_room (room : buffer.size < buffer.capacity) (element : α) :
    buffer.performOn heap settings (.push element) = .ok (buffer.store element) .done := by
  have hroom : buffer.makeRoom heap settings = .ok buffer () := if_neg (Nat.ne_of_lt room)
  rw [performOn_push]
  unfold push
  rw [hroom]
  rfl

/-- A sound buffer keeps its word. -/
theorem Sound.keepsRoom (sound : buffer.Sound heap) : buffer.KeepsRoom heap settings where
  size_le := sound.size_le
  capacity_le _ hrelease := capacity_le_performOn settings sound hrelease
  reserve_capacity _ _ hgranted := capacity_of_reserve_ok settings sound hgranted
  reserve_lasts n answer hgranted further hfurther hsize element := by
    -- What was granted is still there after the further commands.
    obtain ⟨-, hle⟩ := capacity_le_stateAfter settings hfurther
      (sound_performOn settings sound (.reserve n.toNat))
    rw [capacity_of_reserve_ok settings sound hgranted] at hle
    rw [performOn_push_of_room settings
      (Nat.lt_of_lt_of_le hsize (Nat.le_trans (Nat.le_max_right _ _) hle))]
    exact ⟨rfl, rfl⟩
  reserve_refused_iff n := by
    simp only [reserve_eq_error_iff settings sound, exists_and_left, exists_eq, and_true]
    refine ⟨fun hlimit => ⟨fun hbytes => ?_, hlimit⟩, And.right⟩
    -- What takes no memory takes no more than there is.
    exact absurd hlimit (Nat.not_lt.mpr (fits_of_bytes_eq_zero hbytes heap _))
  reserve_fault _ _ hrefused := ((reserve_eq_error_iff settings sound).mp hrefused).2
  push_refused_iff element := by
    simp only [push_eq_error_iff settings sound, Growth.room_eq_error_iff_wanted, exists_and_left,
      exists_eq, and_true]
    exact Iff.rfl
  push_fault _ _ hrefused :=
    (Growth.room_eq_error_iff_wanted.mp ((push_eq_error_iff settings sound).mp hrefused)).2.2
  refused _ _ hrefused := state_of_refused settings sound hrefused

/-- After any run of commands on the empty buffer, of elements of any kind, on any heap and under
any settings, the elements are those that have been accepted since the last release, in order, and
the buffer keeps its word about room. The whole heap has `2 ^ 63 - 1` bytes, so that on it what is
refused takes more than that. -/
theorem reservations_kept (settings : Settings) (commands : List (Command α)) :
    Heap.whole.limit = 2 ^ 63 - 1
      ∧ ∀ heap : Heap,
        (reached heap settings commands).items.toList = stored (history heap settings commands)
          ∧ (reached heap settings commands).KeepsRoom heap settings := by
  refine ⟨rfl, fun heap => ⟨stored_reached settings commands, ?_⟩⟩
  exact (sound_reached settings commands).keepsRoom settings

/-- The whole heap grants a request for all that it has, and none for one byte more. -/
example :
    ((empty : Buffer UInt8).performOn .whole {} (.reserve 0x7FFFFFFFFFFFFFFF)).result = .ok .done
      ∧ ((empty : Buffer UInt8).performOn .whole {} (.reserve 0x8000000000000000)).result
        = .error (.outOfMemory 0x8000000000000000) := ⟨rfl, rfl⟩

end Buffer

end Bytecode
