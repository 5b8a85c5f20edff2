import Bytecode.Proofs.Chunk.Bookkeeping
import Bytecode.Proofs.Pool.View

/-!
# `Bytecode.Proofs.Chunk.View`: what can be seen of a chunk

Of a chunk can be seen its code, its lines, its capacity and its constants. The storage behind
these cannot, and it does change where it is not seen: a growth that the lines are refused
leaves spare storage behind the code.

`push_seen` and `pushConstant_seen` tell what is seen of the two appends from what was seen
before, so spare storage makes no difference to them, and neither does it to any other command
(`perform_seen_congr`, `complete_visible`). A walk asks for even less: `walk_congr` compares chunks
that may count different capacities.
-/

set_option autoImplicit false

namespace Bytecode.Chunk

/-- What can be seen of a chunk: its bytes and their lines, their number and the capacity that
the chunk counts, and what can be seen of its pool. -/
structure Visible where
  code : List UInt8
  lines : List UInt32
  extent : Extent
  constants : Pool.Visible

/-- What can be seen of the chunk. -/
def visible (chunk : Chunk) : Visible :=
  ⟨chunk.code.items.toList, chunk.lines.items.toList, chunk.extent, chunk.constants.visible⟩

namespace Visible

/-- Adding a byte, as it is seen: the policy makes room, or the chunk stays as it is. The lines
take more memory than the code, so they decide. -/
def push (growth : Growth) (seen : Visible) (byte : UInt8) (line : UInt32) :
    Except Fault Unit × Visible :=
  match growth.room .whole .line seen.extent with
  | .ok capacity =>
      (.ok (),
        { seen with
          code := seen.code ++ [byte], lines := seen.lines ++ [line],
          extent := ⟨seen.extent.length + 1, capacity⟩ })
  | .error fault => (.error fault, seen)

/-- Adding a constant, as it is seen: the answer is the number of constants before. -/
def pushConstant (growth : Growth) (seen : Visible) (value : Value) :
    Except Fault Nat × Visible :=
  let pushed := seen.constants.push growth value
  (pushed.1.map fun _ => seen.constants.extent.length, { seen with constants := pushed.2 })

/-- Adding a byte is refused exactly if the policy cannot make room. -/
theorem push_eq_error_iff {growth : Growth} {seen : Visible} {byte : UInt8} {line : UInt32}
    {fault : Fault} :
    (seen.push growth byte line).1 = .error fault
      ↔ growth.room .whole .line seen.extent = .error fault := by
  unfold push
  cases growth.room .whole .line seen.extent with
  | ok capacity => exact ⟨nofun, nofun⟩
  | error fault => exact ⟨congrArg _ ∘ Except.error.inj, congrArg _ ∘ Except.error.inj⟩

/-- Adding a constant is refused exactly if the policy cannot make room in the pool. -/
theorem pushConstant_eq_error_iff {growth : Growth} {seen : Visible} {value : Value}
    {fault : Fault} :
    (seen.pushConstant growth value).1 = .error fault
      ↔ growth.room .whole .value seen.constants.extent = .error fault := by
  rw [← Pool.Visible.push_eq_error_iff value]
  show ((seen.constants.push growth value).1.map fun _ => _) = .error fault ↔ _
  cases (seen.constants.push growth value).1 with
  | ok _ => exact ⟨nofun, nofun⟩
  | error fault => exact ⟨congrArg _ ∘ Except.error.inj, congrArg _ ∘ Except.error.inj⟩

/-- Adding a byte is refused without a visible change. -/
theorem push_refused {growth : Growth} {seen : Visible} {byte : UInt8} {line : UInt32}
    {fault : Fault} (h : (seen.push growth byte line).1 = .error fault) :
    (seen.push growth byte line).2 = seen := by
  unfold push
  rw [push_eq_error_iff.mp h]

/-- Adding a constant is refused without a visible change. -/
theorem pushConstant_refused {growth : Growth} {seen : Visible} {value : Value} {fault : Fault}
    (h : (seen.pushConstant growth value).1 = .error fault) :
    (seen.pushConstant growth value).2 = seen := by
  have hpool : (seen.constants.push growth value).1 = .error fault :=
    (Pool.Visible.push_eq_error_iff value).mpr (pushConstant_eq_error_iff.mp h)
  show { seen with constants := (seen.constants.push growth value).2 } = seen
  rw [Pool.Visible.push_refused hpool]

end Visible

variable (settings : Settings)

/-- What is seen of adding a byte to a sound chunk can be told from what was seen of the chunk
before. -/
theorem push_seen {chunk : Chunk} (sound : chunk.Sound) (byte : UInt8) (line : UInt32) :
    (chunk.push settings byte line).seen visible
      = chunk.visible.push settings.growth byte line := by
  -- The byte is stored in the chunk itself or in a wider one, which show the same contents.
  have hstore : ∀ room : Chunk, room.code.items = chunk.code.items →
      room.lines.items = chunk.lines.items → room.constants = chunk.constants →
      (room.store byte line).visible
        = ⟨chunk.visible.code ++ [byte], chunk.visible.lines ++ [line],
            ⟨chunk.size + 1, room.capacity⟩, chunk.visible.constants⟩ := by
    intro room hcode hlines hconstants
    have hbytes : (room.code.store byte).items.toList = room.code.items.toList ++ [byte] :=
      Buffer.toList_items_store room.code byte
    have hline : (room.lines.store line).items.toList = room.lines.items.toList ++ [line] :=
      Buffer.toList_items_store room.lines line
    have hsize : (room.code.store byte).size = room.code.size + 1 :=
      Buffer.size_store room.code byte
    show Visible.mk (room.code.store byte).items.toList (room.lines.store line).items.toList
      ⟨(room.code.store byte).size, room.capacity⟩ room.constants.visible = _
    rw [hbytes, hline, hsize, hconstants]
    unfold Buffer.size
    rw [hcode, hlines]
    rfl
  unfold Visible.push Growth.room push Outcome.seen
  show _ = match (if chunk.size = chunk.capacity
      then settings.growth.grant .whole .line chunk.capacity
    else .ok chunk.capacity) with
    | .ok capacity => _
    | .error fault => _
  rcases makeRoom_cases settings sound with
    ⟨room, heq⟩ | ⟨full, n, hgrant, heq⟩ | ⟨full, fault, hgrant, n, log, -, heq⟩
  · rw [heq, if_neg (Nat.ne_of_lt room)]
    exact congrArg (Prod.mk _) (hstore chunk rfl rfl rfl)
  · rw [heq, if_pos full, hgrant]
    exact congrArg (Prod.mk _) (hstore (chunk.widen n) rfl rfl rfl)
  · -- Spare storage is not seen.
    rw [heq, if_pos full, hgrant]
    rfl

/-- What is seen of adding a constant to a sound chunk can be told from what was seen of the
chunk before. -/
theorem pushConstant_seen {chunk : Chunk} (sound : chunk.Sound) (value : Value) :
    (chunk.pushConstant settings value).seen visible
      = chunk.visible.pushConstant settings.growth value := by
  have hpool := Pool.push_seen settings sound.constants value
  have hpushed : chunk.visible.pushConstant settings.growth value
      = (((chunk.constants.push settings value).seen Pool.visible).1.map
            fun _ => chunk.constants.size,
          { chunk.visible with
            constants := ((chunk.constants.push settings value).seen Pool.visible).2 }) := by
    rw [hpool]
    rfl
  rw [hpushed]
  rcases Pool.push_cases settings sound.constants value with
    ⟨room, log, -, heq, -, -, hitems⟩ | ⟨fault, -, heq⟩
  · rw [pushConstant_of_push settings heq hitems, heq]
    rfl
  · unfold pushConstant
    rw [heq]
    rfl

/-- The chunk with other amounts of storage behind its code, its lines and its constants. -/
def restock (chunk : Chunk) (code lines values : Nat) : Chunk :=
  { chunk with
    code := { chunk.code with reserved := code }
    lines := { chunk.lines with reserved := lines }
    constants :=
      { chunk.constants with values := { chunk.constants.values with reserved := values } } }

/-- Chunks that look the same differ in the storage behind them only. -/
theorem eq_restock_of_visible_eq {first second : Chunk}
    (halike : first.visible = second.visible) :
    ∃ code lines values, second = first.restock code lines values := by
  obtain ⟨⟨code, _⟩, ⟨lines, _⟩, capacity, ⟨⟨values, _⟩, poolCapacity⟩⟩ := first
  obtain ⟨⟨code', hcode⟩, ⟨lines', hlines⟩, capacity', ⟨⟨values', hvalues⟩, poolCapacity'⟩⟩ :=
    second
  obtain rfl : code = code' := Array.toList_inj.mp (congrArg Visible.code halike)
  obtain rfl : lines = lines' := Array.toList_inj.mp (congrArg Visible.lines halike)
  obtain rfl : values = values' := Array.toList_inj.mp (congrArg (·.constants.values) halike)
  obtain rfl : capacity = capacity' := congrArg (·.extent.capacity) halike
  obtain rfl : poolCapacity = poolCapacity' := congrArg (·.constants.extent.capacity) halike
  exact ⟨hcode, hlines, hvalues, rfl⟩

/-- A walk depends on the code, the lines and the constants, and not on the capacities. -/
theorem walk_congr {first second : Chunk} (hcode : first.code.items = second.code.items)
    (hlines : first.lines.items = second.lines.items)
    (hconstants : first.constants.values.items = second.constants.values.items) (offset : Nat) :
    first.walk offset = second.walk offset := by
  have hsize : first.size = second.size := congrArg Array.size hcode
  have hentries : first.entryAt = second.entryAt := by
    obtain ⟨⟨code, _⟩, ⟨lines, _⟩, _, ⟨⟨values, _⟩, _⟩⟩ := first
    obtain ⟨⟨code', _⟩, ⟨lines', _⟩, _, ⟨⟨values', _⟩, _⟩⟩ := second
    obtain rfl : code = code' := hcode
    obtain rfl : lines = lines' := hlines
    obtain rfl : values = values' := hconstants
    rfl
  fun_induction first.walk offset with
  | case1 offset hlt entry hentry ih =>
      rw [walk.eq_def second, ← hsize, if_pos hlt, ← hentries, hentry]
      exact congrArg (Listing.prepend entry) ih
  | case2 offset hlt fault hentry =>
      rw [walk.eq_def second, ← hsize, if_pos hlt, ← hentries, hentry]
  | case3 offset hge => rw [walk.eq_def second, ← hsize, if_neg hge]

/-- Chunks that look the same are seen to do the same under one policy, whether it is logged or
not. -/
theorem perform_seen_congr {settings settings' : Settings}
    (hgrowth : settings.growth = settings'.growth) {first second : Chunk} (hfirst : first.Sound)
    (hsecond : second.Sound) (halike : first.visible = second.visible) (command : Command) :
    (first.perform settings command).seen visible
      = (second.perform settings' command).seen visible := by
  have hpush : ∀ byte line, (first.push settings byte line).seen visible
      = (second.push settings' byte line).seen visible := by
    intro byte line
    rw [push_seen settings hfirst, push_seen settings' hsecond, halike, hgrowth]
  have hconstant : ∀ value, (first.pushConstant settings value).seen visible
      = (second.pushConstant settings' value).seen visible := by
    intro value
    rw [pushConstant_seen settings hfirst, pushConstant_seen settings' hsecond, halike, hgrowth]
  -- The chunks differ in their storage only, and no other command asks for it.
  obtain ⟨code, lines, values, rfl⟩ := eq_restock_of_visible_eq halike
  cases command with
  | push byte line => exact Outcome.seen_map_congr (hpush byte line) _
  | pushOpcode opcode line => exact Outcome.seen_map_congr (hpush opcode.toByte line) _
  | pushConstant value => exact Outcome.seen_map_congr (hconstant value) _
  | walk offset =>
      have hwalk : first.walk offset = (first.restock code lines values).walk offset := by
        apply walk_congr <;> rfl
      exact congrArg (fun listing => (Except.ok (Answer.listing listing), first.visible)) hwalk
  | _ => rfl

/-- What is seen of a chunk is all that its commands depend on. -/
theorem complete_visible : Outcome.Complete (perform settings) Sound visible where
  keeps sound command := sound_perform settings sound command
  agrees hfirst hsecond halike command := perform_seen_congr rfl hfirst hsecond halike command
  refused := by
    intro chunk sound command fault hrefused
    have hpush : ∀ byte line, (chunk.push settings byte line).result = .error fault →
        (chunk.push settings byte line).state.visible = chunk.visible := by
      intro byte line hresult
      obtain ⟨hfault, hstate⟩ :=
        Outcome.seen_of_refused (push_seen settings sound byte line) hresult
      exact hstate.trans (Visible.push_refused hfault)
    cases command with
    | push byte line => exact hpush byte line (Outcome.map_result_eq_error hrefused)
    | pushOpcode opcode line =>
        exact hpush opcode.toByte line (Outcome.map_result_eq_error hrefused)
    | pushConstant value =>
        have hresult := Outcome.map_result_eq_error hrefused
        obtain ⟨hfault, hstate⟩ :=
          Outcome.seen_of_refused (pushConstant_seen settings sound value) hresult
        exact hstate.trans (Visible.pushConstant_refused hfault)
    | release => nomatch hrefused
    | _ => rfl

end Bytecode.Chunk
