import Bytecode.Proofs.Chunk.Capacity

/-!
# `Bytecode.Proofs.Chunk.Refusal`: a refusal leaves no trace

A growth of a chunk asks for storage twice, and the second request can be refused after the first
has been granted. So a refused command may well change the chunk, but only where nobody can see
it, and what is there has no bearing on any later command.

* `push_refused_iff` and its kin say when an append is refused. It depends on the capacity
  alone.
* `push_of_lines_refused` is the growth that changes what is hidden, and `refused_growth_reached`
  says that a run can get there, under either policy.
* `refused_traceless`: a run does not show its refused commands. They change nothing that is seen,
  and the run without them looks the same at every other command.
-/

set_option autoImplicit false

namespace Bytecode

/-! ### When an append is refused -/

/-- A pool refuses a constant exactly if it is full, and any capacity that the policy names takes
more than `2 ^ 63 - 1` bytes. -/
theorem Pool.push_refused_iff (settings : Settings) {pool : Pool} (sound : pool.Sound)
    (value : Value) :
    (∃ fault, (pool.push settings value).result = .error fault)
      ↔ pool.size = pool.capacity
        ∧ ∀ n, settings.growth.next pool.capacity = .ok n → 2 ^ 63 - 1 < n * 16 := by
  have hresult : (pool.push settings value).result = (pool.visible.push settings.growth value).1 :=
    congrArg Prod.fst (push_seen settings sound value)
  rw [hresult]
  simp only [Visible.push_eq_error_iff]
  exact Growth.room_eq_error_iff

namespace Chunk

/-- A chunk refuses a byte exactly if it is full, and the lines of any capacity that the policy
names take more than `2 ^ 63 - 1` bytes. -/
theorem push_refused_iff (settings : Settings) {chunk : Chunk} (sound : chunk.Sound)
    (byte : UInt8) (line : UInt32) :
    (∃ fault, (chunk.push settings byte line).result = .error fault)
      ↔ chunk.size = chunk.capacity
        ∧ ∀ n, settings.growth.next chunk.capacity = .ok n → 2 ^ 63 - 1 < n * 4 := by
  have hresult : (chunk.push settings byte line).result
      = (chunk.visible.push settings.growth byte line).1 :=
    congrArg Prod.fst (push_seen settings sound byte line)
  rw [hresult]
  simp only [Visible.push_eq_error_iff]
  exact Growth.room_eq_error_iff

/-- A chunk refuses a constant exactly if its pool is full, and any capacity that the policy names
takes more than `2 ^ 63 - 1` bytes. -/
theorem pushConstant_refused_iff (settings : Settings) {chunk : Chunk} (sound : chunk.Sound)
    (value : Value) :
    (∃ fault, (chunk.pushConstant settings value).result = .error fault)
      ↔ chunk.constants.size = chunk.constants.capacity
        ∧ ∀ n, settings.growth.next chunk.constants.capacity = .ok n → 2 ^ 63 - 1 < n * 16 := by
  have hresult : (chunk.pushConstant settings value).result
      = (chunk.visible.pushConstant settings.growth value).1 :=
    congrArg Prod.fst (pushConstant_seen settings sound value)
  rw [hresult]
  simp only [Visible.pushConstant_eq_error_iff]
  exact Growth.room_eq_error_iff

/-! ### A refusal that changes what is hidden -/

section Hidden

variable {settings : Settings} {chunk : Chunk}

/-- A growth that memory can hold the code of, and not the lines: the byte is refused, and the
code has been given the storage. -/
theorem push_of_lines_refused (sound : chunk.Sound) (full : chunk.size = chunk.capacity) {n : Nat}
    (hnext : settings.growth.next chunk.capacity = .ok n)
    (hcode : n * ElementKind.byte.bytes ≤ Heap.whole.limit)
    (hlines : Heap.whole.limit < n * ElementKind.line.bytes) (byte : UInt8) (line : UInt32) :
    chunk.push settings byte line
      = ⟨.error (.outOfMemory n), chunk.spare n, settings.note (.reserved .byte n)⟩ := by
  have hroom : chunk.makeRoom settings
      = (Outcome.read chunk (settings.growth.next chunk.capacity)).andThen (growTo settings) :=
    if_pos full
  have hgrow : (Outcome.read chunk (.ok n)).andThen (growTo settings)
      = chunk.growTo settings n := rfl
  unfold push
  rw [hroom, hnext, hgrow, growTo_eq settings sound, if_neg (Nat.not_le.mpr hlines), if_pos hcode]
  rfl

/-- A byte that memory has room for is accepted, and code with storage for its capacity and no more
still has just that. -/
theorem push_of_fits (sound : chunk.Sound) (governed : chunk.Governed settings)
    (htight : chunk.code.reserved = chunk.capacity)
    (hword : settings.growth.capacityFor (chunk.size + 1) ≤ maxWord)
    (hfits : settings.growth.capacityFor (chunk.size + 1) * ElementKind.line.bytes
      ≤ Heap.whole.limit)
    (byte : UInt8) (line : UInt32) :
    (chunk.push settings byte line).state.size = chunk.size + 1
      ∧ (chunk.push settings byte line).state.code.reserved
        = (chunk.push settings byte line).state.capacity := by
  have hroom : settings.growth.room .whole .line chunk.extent
      = .ok (settings.growth.capacityFor (chunk.size + 1)) := governed.1.room_of_fits hword hfits
  unfold push
  rcases makeRoom_cases settings sound with
    ⟨room, heq⟩ | ⟨full, n, hgrant, heq⟩ | ⟨full, fault, hgrant, n, log, -, heq⟩
  · rw [heq]
    exact ⟨Buffer.size_store chunk.code byte, htight⟩
  · rw [heq]
    refine ⟨Buffer.size_store (chunk.widen n).code byte, ?_⟩
    have hlt := (Growth.grant_eq_ok hgrant).1
    show max chunk.code.reserved n = n
    rw [htight]
    exact Nat.max_eq_right (Nat.le_of_lt hlt)
  · -- A refusal contradicts the room that there is.
    have hfull : settings.growth.room .whole .line chunk.extent = .error fault :=
      (if_pos full).trans hgrant
    rw [hroom] at hfull
    nomatch hfull

/-- As many bytes as memory has room for can be added one after the other. -/
theorem reached_replicate (settings : Settings) (count : Nat)
    (hword : settings.growth.capacityFor count ≤ maxWord)
    (hfits : settings.growth.capacityFor count * ElementKind.line.bytes ≤ Heap.whole.limit) :
    (reached settings (List.replicate count (.push 0 0))).size = count
      ∧ (reached settings (List.replicate count (.push 0 0))).code.reserved
        = (reached settings (List.replicate count (.push 0 0))).capacity := by
  -- Along with the length the run keeps the code's storage tight: nothing has been refused yet.
  induction count with
  | zero => exact ⟨rfl, rfl⟩
  | succ count ih =>
      -- What fits at this length has fitted at the one before.
      have hle := settings.growth.capacityFor_le_succ count
      obtain ⟨hsize, htight⟩ := ih (Nat.le_trans hle hword)
        (Nat.le_trans (Nat.mul_le_mul_right _ hle) hfits)
      rw [List.replicate_succ', reached_concat]
      have hpush := push_of_fits (sound_reached settings _) (governed_reached settings _) htight
        (by rw [hsize]; exact hword) (by rw [hsize]; exact hfits) 0 0
      rw [hsize] at hpush
      exact hpush

/-- Under either policy there is a length at which a chunk is full and goes to `2 ^ 61` bytes next:
half of that under doubling, and stepwise one less. -/
theorem exists_full_before_limit (growth : Growth) :
    ∃ count, growth.capacityFor count = count ∧ count < 2 ^ 61
      ∧ growth.next count = .ok (2 ^ 61) := by
  have hword : 2 ^ 61 ≤ maxWord := by decide
  cases growth with
  | doubling =>
      have hfull : Growth.doubling.capacityFor (8 * 2 ^ 57) = 8 * 2 ^ 57 :=
        (Growth.doubling.capacityFor_eq_self_iff).mpr (.inr ⟨57, rfl⟩)
      have hdoubled : Growth.doubling.capacityFor (8 * 2 ^ 57 + 1) = 2 ^ 61 :=
        Growth.capacityFor_doubled 57
      have hnext := Growth.doubling.next_of_full hfull
      rw [hdoubled] at hnext
      exact ⟨8 * 2 ^ 57, hfull, by decide, hnext.trans (if_pos hword)⟩
  | stepwise =>
      -- Stepwise every length from eight on is full.
      have hfull : Growth.stepwise.capacityFor (2 ^ 61 - 1) = 2 ^ 61 - 1 :=
        (Growth.stepwise.capacityFor_eq_self_iff).mpr (.inr (by decide))
      have hnext := Growth.stepwise.next_of_full hfull
      rw [Growth.stepwise.capacityFor_succ_of_full hfull (by decide)] at hnext
      exact ⟨2 ^ 61 - 1, hfull, by decide, hnext.trans (if_pos hword)⟩

/-- Under either policy a run can fill a chunk so far that the next growth is granted for the code
and refused for the lines. -/
theorem refused_growth_reached (settings : Settings) :
    ∃ commands byte line,
      let chunk := reached settings commands
      (∃ fault, (chunk.push settings byte line).result = .error fault)
      ∧ chunk.code.reserved < (chunk.push settings byte line).state.code.reserved := by
  obtain ⟨count, hfull, hlt, hnext⟩ := exists_full_before_limit settings.growth
  -- Up to here even the lines fit, which take four bytes each.
  have hbelow : count * ElementKind.line.bytes ≤ Heap.whole.limit := by
    show count * 4 ≤ 0x7FFFFFFFFFFFFFFF
    omega
  obtain ⟨hsize, htight⟩ := reached_replicate settings count
    (by rw [hfull]; exact Nat.le_trans (Nat.le_of_lt hlt) (by decide)) (by rw [hfull]; exact hbelow)
  refine ⟨List.replicate count (.push 0 0), 0, 0, ?_⟩
  intro chunk
  have hcapacity : chunk.capacity = count := by
    have hgoverns : chunk.capacity = settings.growth.capacityFor chunk.size :=
      (governed_reached settings _).1
    rw [hgoverns, hsize, hfull]
  have hpush := push_of_lines_refused (sound_reached settings _) (hsize.trans hcapacity.symm)
    (by rw [hcapacity]; exact hnext) (by decide) (by decide) 0 0
  rw [hpush]
  refine ⟨⟨_, rfl⟩, ?_⟩
  -- The code had storage for its capacity only, and has been given more.
  show chunk.code.reserved < max chunk.code.reserved (2 ^ 61)
  rw [htight, hcapacity]
  omega

end Hidden

/-! ### No trace -/

/-- A refused command leaves no trace, in any run on a chunk or on a pool that is used alone: it
changes nothing that can be seen, and without the refused commands the run has the same answers
and looks the same after every other command. An append is refused exactly if the capacity that
it asks for is no machine word or takes more than `2 ^ 63 - 1` bytes, and for a byte the lines
decide: there are runs that come to a growth which the code is granted and the lines are not. -/
theorem refused_traceless (settings : Settings) :
    Outcome.Traceless (perform settings) .empty visible
    ∧ Outcome.Traceless (Pool.perform settings) .empty Pool.visible
    ∧ (∀ commands,
      let chunk := reached settings commands
      (∀ byte line, (∃ fault, (chunk.push settings byte line).result = .error fault)
        ↔ chunk.size = chunk.capacity
          ∧ ∀ n, settings.growth.next chunk.capacity = .ok n → 2 ^ 63 - 1 < n * 4)
      ∧ ∀ value, (∃ fault, (chunk.pushConstant settings value).result = .error fault)
        ↔ chunk.constants.size = chunk.constants.capacity
          ∧ ∀ n, settings.growth.next chunk.constants.capacity = .ok n → 2 ^ 63 - 1 < n * 16)
    ∧ (∀ commands value,
      let pool := Pool.reached settings commands
      (∃ fault, (pool.push settings value).result = .error fault)
        ↔ pool.size = pool.capacity
          ∧ ∀ n, settings.growth.next pool.capacity = .ok n → 2 ^ 63 - 1 < n * 16)
    ∧ ∃ commands byte line,
      let chunk := reached settings commands
      (∃ fault, (chunk.push settings byte line).result = .error fault)
      ∧ chunk.code.reserved < (chunk.push settings byte line).state.code.reserved := by
  refine ⟨(complete_visible settings).traceless sound_empty,
    (Pool.complete_visible settings).traceless Pool.sound_empty, ?_, ?_,
    refused_growth_reached settings⟩
  · intro commands chunk
    have sound : chunk.Sound := sound_reached settings commands
    exact ⟨push_refused_iff settings sound, pushConstant_refused_iff settings sound⟩
  · intro commands value pool
    exact Pool.push_refused_iff settings (Pool.sound_reached settings commands) value

end Chunk

end Bytecode
