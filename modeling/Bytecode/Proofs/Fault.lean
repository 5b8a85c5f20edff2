import Bytecode.Proofs.Chunk.Dump

/-!
# `Bytecode.Proofs.Fault`: what the text of a fault tells

A fault is reported by a sentence, and dumped as a record. Either text tells the fault: its kind,
and the numbers that it carries (`message_injective`, `dump_injective`). The first letter of a
sentence tells the kind, and every number in it ends where the sentence goes on with a blank, or
where it ends.

So it is with failed reads. What a checked read fails with tells where it looked, and either how
many elements there were or the byte that it found (`Read.Fails.cases`). `texts_identify` says that
two reads which fail with the same sentence have all of that in common, whatever they read from.
-/

set_option autoImplicit false

namespace Bytecode

namespace Fault

/-! ### Sentences -/

/-- The sentence for refused memory, taken apart at the number. -/
theorem message_outOfMemory (requested : Nat) :
    message (.outOfMemory requested)
      = "out of memory growing buffer to ".toList ++ (numeral requested ++ " elements".toList) := by
  unfold message
  exact List.append_assoc ..

/-- The sentence for a read out of range, taken apart at the blank after the first number. -/
theorem message_indexOutOfRange (index length : Nat) :
    message (.indexOutOfRange index length)
      = "index ".toList
        ++ (numeral index ++ ' ' :: ("out of range for length ".toList ++ numeral length)) := by
  have hblank : " out of range for length ".toList = ' ' :: "out of range for length ".toList := by
    simp
  unfold message
  simp only [hblank, List.append_assoc, List.cons_append]

/-- The sentence for an unknown opcode, taken apart at the blank after the first number. -/
theorem message_unknownOpcode (byte : UInt8) (offset : Nat) :
    message (.unknownOpcode byte offset)
      = "unknown opcode ".toList
        ++ (numeral byte.toNat ++ ' ' :: ("at offset ".toList ++ numeral offset)) := by
  have hblank : " at offset ".toList = ' ' :: "at offset ".toList := by simp
  unfold message
  simp only [hblank, List.append_assoc, List.cons_append]

/-- The letter that the sentences for a kind of faults begin with. -/
def initial : Fault → Char
  | outOfMemory _ => 'o'
  | indexOutOfRange _ _ => 'i'
  | unknownOpcode _ _ => 'u'

/-- A sentence begins with the letter for its kind. -/
theorem head?_message (fault : Fault) : fault.message.head? = some fault.initial := by
  unfold message
  cases fault <;> simp [initial]

/-- No two faults have the same sentence. -/
theorem message_injective : Function.Injective message := by
  have hblank : ∀ n, ' ' ∉ numeral n := not_mem_numeral rfl
  intro fault fault' h
  -- The first letters tell different kinds apart.
  have hinitial : fault.initial = fault'.initial := by
    rw [← Option.some_inj, ← head?_message, ← head?_message, h]
  cases fault with
  | outOfMemory requested =>
      cases fault' with
      | outOfMemory requested' =>
          rw [message_outOfMemory, message_outOfMemory, List.append_cancel_left_eq,
            List.append_cancel_right_eq] at h
          rw [numeral_injective h]
      | indexOutOfRange _ _ | unknownOpcode _ _ => exact absurd hinitial (by simp [initial])
  | indexOutOfRange index length =>
      cases fault' with
      | indexOutOfRange index' length' =>
          rw [message_indexOutOfRange, message_indexOutOfRange, List.append_cancel_left_eq,
            separated_inj (hblank index) (hblank index'), List.append_cancel_left_eq] at h
          rw [numeral_injective h.1, numeral_injective h.2]
      | outOfMemory _ | unknownOpcode _ _ => exact absurd hinitial (by simp [initial])
  | unknownOpcode byte offset =>
      cases fault' with
      | unknownOpcode byte' offset' =>
          rw [message_unknownOpcode, message_unknownOpcode, List.append_cancel_left_eq,
            separated_inj (hblank byte.toNat) (hblank byte'.toNat),
            List.append_cancel_left_eq] at h
          rw [UInt8.toNat_inj.mp (numeral_injective h.1), numeral_injective h.2]
      | outOfMemory _ | indexOutOfRange _ _ => exact absurd hinitial (by simp [initial])

/-! ### Dumps -/

section

variable {format : Format} {fault fault' : Fault}

/-- There is no blank in the name of a record. -/
theorem blank_not_mem_name : ' ' ∉ (fault.record format).name := by
  unfold record
  cases fault <;> simp

/-- The numbers in the record of a fault are legible. -/
theorem each_record : ∀ field ∈ (fault.record format).fields, field.2.Each Legible := by
  have hnatural : ∀ n, (Item.leaf (format.natural n)).Each Legible := fun n =>
    .leaf (format.legible_natural n)
  unfold record
  cases fault <;> simp [hnatural]

/-- Records with the same name have fields with the same names. -/
theorem fieldNames_eq_of_name_eq (h : (fault.record format).name = (fault'.record format).name) :
    (fault.record format).fields.map Prod.fst = (fault'.record format).fields.map Prod.fst := by
  unfold record at h ⊢
  cases fault <;> cases fault' <;> first | rfl | exact absurd h (by simp)

end

/-- No two faults have the same record. -/
theorem record_injective : Function.Injective (record {}) := by
  intro fault fault' h
  unfold record at h
  cases fault <;> cases fault' <;>
    simp [Format.natural_injective.eq_iff, UInt8.toNat_inj] at h ⊢ <;> exact h

/-- No two faults have the same dump. -/
theorem dump_injective : Function.Injective (dump {}) := by
  intro fault fault' h
  have hname := Record.name_eq_of_compact_eq blank_not_mem_name blank_not_mem_name h
  exact record_injective
    ((Record.compact_inj hname (fieldNames_eq_of_name_eq hname) each_record each_record).mp h)

end Fault

/-! ### Failed reads -/

/-- A checked read of a chunk, or of a pool that is used alone. -/
inductive Read where
  | byte (chunk : Chunk) (offset : Nat)
  | line (chunk : Chunk) (offset : Nat)
  | opcode (chunk : Chunk) (offset : Nat)
  | constant (chunk : Chunk) (index : Nat)
  | value (pool : Pool) (index : Nat)

namespace Read

/-- The place that is looked at. -/
def index : Read → Nat
  | byte _ offset | line _ offset | opcode _ offset => offset
  | constant _ index | value _ index => index

/-- How many elements there are to read. -/
def length : Read → Nat
  | byte chunk _ | opcode chunk _ => chunk.code.size
  | line chunk _ => chunk.lines.size
  | constant chunk _ => chunk.constants.size
  | value pool _ => pool.size

/-- The byte that is found where the code of an instruction is looked for. -/
def found? : Read → Option UInt8
  | opcode chunk offset => chunk.code.items[offset]?
  | _ => none

/-- The read fails with the fault. -/
def Fails : Read → Fault → Prop
  | byte chunk offset, fault => chunk.byteAt offset = .error fault
  | line chunk offset, fault => chunk.lineAt offset = .error fault
  | opcode chunk offset, fault => chunk.opcodeAt offset = .error fault
  | constant chunk index, fault => chunk.constantAt index = .error fault
  | value pool index, fault => pool.get index = .error fault

/-- The read is out of range, and the fault says so. -/
structure OutOfRange (read : Read) (fault : Fault) : Prop where
  length_le : read.length ≤ read.index
  fault : fault = .indexOutOfRange read.index read.length

/-- The read finds a byte that is the code of no instruction, and the fault says so. -/
structure Unknown (read : Read) (byte : UInt8) (fault : Fault) : Prop where
  found : read.found? = some byte
  fault : fault = .unknownOpcode byte read.index

/-- A read of an array fails only out of range. -/
theorem readAt_eq_error {α : Type} {elements : Array α} {index : Nat} {fault : Fault}
    (h : readAt elements index = .error fault) :
    elements.size ≤ index ∧ fault = .indexOutOfRange index elements.size := by
  unfold readAt at h
  cases helement : elements[index]? with
  | none =>
      rw [helement] at h
      exact ⟨Array.getElem?_eq_none_iff.mp helement, (Except.error.inj h).symm⟩
  | some element =>
      rw [helement] at h
      nomatch h

/-- What a read of an array finds is in it. -/
theorem eq_some_of_readAt {α : Type} {elements : Array α} {index : Nat} {element : α}
    (h : readAt elements index = .ok element) : elements[index]? = some element := by
  unfold readAt at h
  cases helement : elements[index]? with
  | none =>
      rw [helement] at h
      nomatch h
  | some element' =>
      rw [helement] at h
      exact congrArg some (Except.ok.inj h)

/-- A read fails out of range, or because the byte that it found is the code of no instruction. -/
theorem Fails.cases {read : Read} {fault : Fault} (h : read.Fails fault) :
    read.OutOfRange fault ∨ ∃ byte, read.Unknown byte fault := by
  have hrange : ∀ {α : Type} {elements : Array α}, elements.size = read.length →
      readAt elements read.index = .error fault → read.OutOfRange fault := by
    intro α elements hlength hread
    obtain ⟨hle, hfault⟩ := readAt_eq_error hread
    rw [hlength] at hle hfault
    exact ⟨hle, hfault⟩
  cases read with
  | byte chunk offset => exact .inl (hrange rfl h)
  | line chunk offset => exact .inl (hrange rfl h)
  | constant chunk index => exact .inl (hrange rfl h)
  | value pool index => exact .inl (hrange rfl h)
  | opcode chunk offset =>
      have hopcode : chunk.opcodeAt offset = .error fault := h
      unfold Chunk.opcodeAt at hopcode
      cases hbyte : chunk.byteAt offset with
      | error fault' =>
          rw [hbyte] at hopcode
          obtain rfl : fault' = fault := Except.error.inj hopcode
          exact .inl (hrange rfl hbyte)
      | ok byte =>
          -- There is a byte, so that it is the decoding that fails.
          rw [hbyte] at hopcode
          refine .inr ⟨byte, eq_some_of_readAt hbyte, ?_⟩
          show fault = .unknownOpcode byte offset
          cases hkind : Opcode.ofByte? byte with
          | some kind => simp [bind, Except.bind, hkind] at hopcode
          | none => simpa [bind, Except.bind, hkind, eq_comm] using hopcode

end Read

/-- The texts of a fault tell it: two faults are the same just if they have the same sentence, and
just if they have the same dump. So if two checked reads fail with the same sentence, they fail with
the same fault and have looked at the same place. Either both were out of range, and there were
equally many elements to read, or both have found the same byte, which is the code of no
instruction. -/
theorem Fault.texts_identify (fault fault' : Fault) :
    (fault = fault' ↔ fault.message = fault'.message)
      ∧ (fault = fault' ↔ fault.dump {} = fault'.dump {})
      ∧ ∀ read read' : Read, read.Fails fault → read'.Fails fault' →
        fault.message = fault'.message →
          fault = fault' ∧ read.index = read'.index
            ∧ (read.OutOfRange fault ∧ read'.OutOfRange fault' ∧ read.length = read'.length
              ∨ ∃ byte, read.Unknown byte fault ∧ read'.Unknown byte fault') := by
  refine ⟨message_injective.eq_iff.symm, dump_injective.eq_iff.symm, ?_⟩
  intro read read' hfails hfails' hmessage
  obtain rfl : fault = fault' := message_injective hmessage
  rcases hfails.cases with hrange | ⟨byte, hunknown⟩
  · rcases hfails'.cases with hrange' | ⟨byte', hunknown'⟩
    · obtain ⟨hindex, hlength⟩ := Fault.indexOutOfRange.inj (hrange.fault.symm.trans hrange'.fault)
      exact ⟨rfl, hindex, .inl ⟨hrange, hrange', hlength⟩⟩
    · nomatch hrange.fault.symm.trans hunknown'.fault
  · rcases hfails'.cases with hrange' | ⟨byte', hunknown'⟩
    · nomatch hunknown.fault.symm.trans hrange'.fault
    · obtain ⟨rfl, hindex⟩ := Fault.unknownOpcode.inj (hunknown.fault.symm.trans hunknown'.fault)
      exact ⟨rfl, hindex, .inr ⟨byte, hunknown, hunknown'⟩⟩

/-- A byte is read from an empty chunk, and a constant from an empty pool. They fail with the same
sentence, and so they have been looked for at the same place. -/
theorem Fault.texts_identify_empty :
    let fault := Fault.indexOutOfRange 2 0
    let byte := Read.byte .empty 2
    let value := Read.value .empty 2
    byte.Fails fault ∧ value.Fails fault
      ∧ fault.message = "index 2 out of range for length 0".toList
      ∧ byte.index = value.index
      ∧ (byte.OutOfRange fault ∧ value.OutOfRange fault ∧ byte.length = value.length
        ∨ ∃ found, byte.Unknown found fault ∧ value.Unknown found fault) := by
  intro fault byte value
  exact ⟨rfl, rfl, by decide, ((texts_identify fault fault).2.2 byte value rfl rfl rfl).2⟩

end Bytecode
