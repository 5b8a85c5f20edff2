import Bytecode.Proofs.Chunk.Bookkeeping

/-!
# `Bytecode.Proofs.Chunk.Contents`: what is in a chunk

The contents of a chunk are two lists: its bytes, each with its line, and its constants.
`Holds` says that the buffers hold two given lists.

Appending puts its element at the end of the list that it belongs to and leaves the other, and
where it is refused it leaves both (`Holds.push`, `Holds.pushConstant`). Reading answers from
the lists: `Represents` spells out what the lengths and the checked reads come to, and
`Holds.represents` proves it.
-/

set_option autoImplicit false

namespace Bytecode

/-- A checked read of an array answers from the list of its elements. -/
theorem readAt_eq {α : Type} (elements : Array α) (index : Nat) :
    readAt elements index
      = match elements.toList[index]? with
        | some element => .ok element
        | none => .error (.indexOutOfRange index elements.toList.length) := by
  unfold readAt
  cases helement : elements[index]? <;> simp [helement]

/-- The kind that a byte is the code of, spelled out. -/
theorem ofByte?_eq (byte : UInt8) :
    Opcode.ofByte? byte
      = if byte = 0 then some .constant else if byte = 1 then some .ret else none := by
  by_cases hzero : byte = 0
  · subst hzero; rfl
  · by_cases hone : byte = 1
    · subst hone; rfl
    · rw [if_neg hzero, if_neg hone, Opcode.ofByte?_eq_none_iff]
      have h0 : byte.toNat ≠ 0 := fun h => hzero (UInt8.toNat_inj.mp h)
      have h1 : byte.toNat ≠ 1 := fun h => hone (UInt8.toNat_inj.mp h)
      show 2 ≤ byte.toNat
      omega

namespace Chunk

/-- The buffers of the chunk hold a list of bytes with their lines and a list of constants. -/
structure Holds (chunk : Chunk) (written : List (UInt8 × UInt32)) (pooled : List Value) :
    Prop where
  code : chunk.code.items.toList = written.map Prod.fst
  lines : chunk.lines.items.toList = written.map Prod.snd
  values : chunk.constants.values.items.toList = pooled

/-- The chunk stands for a list of bytes with their lines and a list of constants: its contents
are these in order, each constant in its own place and with its own bits, and every checked read
answers from them, with the fault that names the index and the length where the list ends. A
byte from two on is the code of no instruction. -/
structure Represents (chunk : Chunk) (written : List (UInt8 × UInt32)) (pooled : List Value) :
    Prop where
  code : chunk.code.items.toList = written.map Prod.fst
  lines : chunk.lines.items.toList = written.map Prod.snd
  constants : chunk.constants.values.items.toList = pooled
  size : chunk.size = written.length ∧ chunk.constants.size = pooled.length
  byteAt : ∀ offset, chunk.byteAt offset
    = match written[offset]? with
      | some (byte, _) => .ok byte
      | none => .error (.indexOutOfRange offset written.length)
  lineAt : ∀ offset, chunk.lineAt offset
    = match written[offset]? with
      | some (_, line) => .ok line
      | none => .error (.indexOutOfRange offset written.length)
  opcodeAt : ∀ offset, chunk.opcodeAt offset
    = match written[offset]? with
      | some (byte, _) =>
          if byte = 0 then .ok .constant
          else if byte = 1 then .ok .ret
          else .error (.unknownOpcode byte offset)
      | none => .error (.indexOutOfRange offset written.length)
  constantAt : ∀ index, chunk.constantAt index
    = match pooled[index]? with
      | some value => .ok value
      | none => .error (.indexOutOfRange index pooled.length)

/-- There is nothing in the empty chunk. -/
theorem holds_empty : empty.Holds [] [] := ⟨rfl, rfl, rfl⟩

namespace Holds

variable {chunk : Chunk} {written : List (UInt8 × UInt32)} {pooled : List Value}

/-- Adding a byte puts it with its line after those that are there. If it is refused then it may
have left spare storage, which is no part of the contents. -/
theorem push (settings : Settings) (sound : chunk.Sound) (holds : chunk.Holds written pooled)
    (byte : UInt8) (line : UInt32) :
    ((chunk.push settings byte line).result = .ok ()
        ∧ (chunk.push settings byte line).state.Holds (written ++ [(byte, line)]) pooled)
      ∨ ∃ fault, (chunk.push settings byte line).result = .error fault
          ∧ (chunk.push settings byte line).state.Holds written pooled := by
  rcases push_cases settings sound byte line with
    ⟨room, log, -, heq, -, -, hcode, hlines, hconstants⟩ | ⟨fault, n, log, -, heq, -⟩
  · -- Accepted: making room has changed no list, and storing appends to two of them.
    left
    rw [heq]
    refine ⟨rfl, ?_, ?_, ?_⟩
    · show (room.code.store byte).items.toList = _
      rw [Buffer.toList_items_store, hcode, holds.code, List.map_append]
      rfl
    · show (room.lines.store line).items.toList = _
      rw [Buffer.toList_items_store, hlines, holds.lines, List.map_append]
      rfl
    · show room.constants.values.items.toList = _
      rw [hconstants]
      exact holds.values
  · -- Refused: spare storage is no part of a list.
    right
    rw [heq]
    exact ⟨fault, rfl, holds.code, holds.lines, holds.values⟩

/-- Adding a constant puts it after those that are there, and answers how many they were. If it
is refused then nothing has changed. -/
theorem pushConstant (settings : Settings) (sound : chunk.Sound)
    (holds : chunk.Holds written pooled) (value : Value) :
    ((chunk.pushConstant settings value).result = .ok pooled.length
        ∧ (chunk.pushConstant settings value).state.Holds written (pooled ++ [value]))
      ∨ ∃ fault, (chunk.pushConstant settings value).result = .error fault
          ∧ (chunk.pushConstant settings value).state.Holds written pooled := by
  rcases pushConstant_cases settings sound value with
    ⟨constants, log, heq, -, hvalues⟩ | ⟨fault, heq⟩
  · left
    have hsize : chunk.constants.size = pooled.length := by
      rw [← holds.values, Array.length_toList]
      rfl
    rw [heq, ← hsize]
    refine ⟨rfl, holds.code, holds.lines, ?_⟩
    rw [← holds.values]
    exact hvalues
  · right
    rw [heq]
    exact ⟨fault, rfl, holds⟩

/-- The lengths and the checked reads of a chunk answer from the lists that it holds. -/
theorem represents (holds : chunk.Holds written pooled) : chunk.Represents written pooled := by
  have hbyte : ∀ offset, chunk.byteAt offset
      = match written[offset]? with
        | some (byte, _) => .ok byte
        | none => .error (.indexOutOfRange offset written.length) := by
    intro offset
    unfold Chunk.byteAt
    rw [readAt_eq, holds.code, List.getElem?_map, List.length_map]
    cases written[offset]? <;> rfl
  refine ⟨holds.code, holds.lines, holds.values, ⟨?_, ?_⟩, hbyte, ?_, ?_, ?_⟩
  · have := congrArg List.length holds.code
    rwa [Array.length_toList, List.length_map] at this
  · have := congrArg List.length holds.values
    rwa [Array.length_toList] at this
  · intro offset
    unfold Chunk.lineAt
    rw [readAt_eq, holds.lines, List.getElem?_map, List.length_map]
    cases written[offset]? <;> rfl
  · intro offset
    unfold Chunk.opcodeAt
    rw [hbyte]
    cases written[offset]? with
    | none => rfl
    | some entry =>
        obtain ⟨byte, line⟩ := entry
        have hopcode := ofByte?_eq byte
        by_cases hzero : byte = 0
        · subst hzero
          rfl
        · by_cases hone : byte = 1
          · subst hone
            rfl
          · rw [if_neg hzero, if_neg hone] at hopcode
            simp [bind, Except.bind, hopcode, hzero, hone]
  · intro index
    unfold Chunk.constantAt Pool.get
    rw [readAt_eq, holds.values]
    cases pooled[index]? <;> rfl

end Holds

end Chunk

end Bytecode
