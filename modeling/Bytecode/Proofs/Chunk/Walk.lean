import Bytecode.Proofs.Chunk.Grammar
import Bytecode.Proofs.Chunk.Refinement

/-!
# `Bytecode.Proofs.Chunk.Walk`: a walk lists what is code

A walk reads a chunk byte by byte with checked reads. Here it is compared with the grammar of
`Bytecode.Proofs.Chunk.Grammar`, which knows lists of bytes only: the entries of a walk are the
instructions of the longest part of the code from its start on that is code, and the fault that
ends it says how the bytes after that part fail to go on.

* `entryAt_eq` says what is read at an offset by the byte there. `entryAt_cases` is the step that
  comes of it: at an offset within the code either an instruction stands there and its entry is
  read, or none does and the read fails with the reason.
* `walk_reads` is the induction, along the walk itself.
* `walk_of_isCode` reads a walk off code that is known to be instructions to its end.
* `walk_reached` puts it together for every chunk that a run reaches and every offset.
-/

set_option autoImplicit false

namespace Bytecode.Chunk

open Instruction

/-- An entry as it is printed: the offset, the name of the kind, the line, and the constant. -/
def Entry.row (entry : Entry) : Nat × Text × UInt32 × Option Text :=
  (entry.offset, entry.opcode.text {}, entry.line, entry.operand.map (Value.text {}))

/-- An entry of a listing tells of an instruction at an offset of a chunk: where it stands, its
kind, the source line of its first byte, and the constant that it loads. It is printed so. -/
structure Entry.Describes (entry : Entry) (chunk : Chunk) (offset : Nat)
    (instruction : Instruction) : Prop where
  place : entry.offset = offset
  opcode : entry.opcode = instruction.opcode
  line : chunk.lines.items.toList[offset]? = some entry.line
  operand : entry.operand = instruction.operand chunk.constants.values.items.toList
  row : entry.row = (offset, instruction.mnemonic, entry.line,
    (instruction.operand chunk.constants.values.items.toList).map (Value.text {}))

/-- Entries tell, in order, of instructions that stand one after the other from an offset on. -/
inductive Listed (chunk : Chunk) : Nat → List Instruction → List Entry → Prop where
  | nil (offset : Nat) : Listed chunk offset [] []
  | cons {offset : Nat} {instruction : Instruction} {entry : Entry}
      {instructions : List Instruction} {entries : List Entry}
      (head : entry.Describes chunk offset instruction)
      (tail : Listed chunk (offset + instruction.encode.length) instructions entries) :
      Listed chunk offset (instruction :: instructions) (entry :: entries)

section Listed

variable {chunk : Chunk} {offset : Nat} {instructions : List Instruction} {entries : List Entry}

/-- There is one entry for each instruction. -/
theorem Listed.length_eq (listed : Listed chunk offset instructions entries) :
    entries.length = instructions.length := by
  induction listed with
  | nil => rfl
  | cons _ _ ih => rw [List.length_cons, List.length_cons, ih]

/-- The entry at an index tells of the instruction at that index, which stands after the bytes
of those before it. -/
theorem Listed.getElem? (listed : Listed chunk offset instructions entries) {index : Nat}
    {instruction : Instruction} (h : instructions[index]? = some instruction) :
    ∃ entry, entries[index]? = some entry
      ∧ entry.Describes chunk (offset + (encodeAll (instructions.take index)).length)
          instruction := by
  induction listed generalizing index with
  | nil => simp at h
  | @cons offset first entry instructions entries head tail ih =>
      cases index with
      | zero =>
          obtain rfl : first = instruction := by simpa using h
          exact ⟨entry, rfl, head⟩
      | succ index =>
          obtain ⟨entry', hentry, hdescribes⟩ := ih (by simpa using h)
          refine ⟨entry', by simpa using hentry, ?_⟩
          rw [List.take_succ_cons, encodeAll_cons, List.length_append, ← Nat.add_assoc]
          exact hdescribes

/-- No entry stands before the offset that the listing starts at. -/
theorem Listed.le_offset (listed : Listed chunk offset instructions entries) :
    ∀ entry ∈ entries, offset ≤ entry.offset := by
  induction listed with
  | nil => simp
  | cons head tail ih =>
      intro entry hentry
      rcases List.mem_cons.mp hentry with rfl | hentry
      · rw [head.place]
      · have := ih entry hentry
        omega

/-- The offsets of the entries increase, since every instruction takes a byte. -/
theorem Listed.increasing (listed : Listed chunk offset instructions entries) :
    (entries.map Entry.offset).Pairwise (· < ·) := by
  induction listed with
  | nil => exact List.Pairwise.nil
  | @cons offset instruction entry instructions entries head tail ih =>
      rw [List.map_cons, List.pairwise_cons]
      refine ⟨?_, ih⟩
      intro next hnext
      obtain ⟨entry', hentry', rfl⟩ := List.mem_map.mp hnext
      have hle := tail.le_offset entry' hentry'
      rw [head.place]
      rw [length_encode] at hle
      omega

end Listed

section Walk

variable {chunk : Chunk} {written : List (UInt8 × UInt32)} {pooled : List Value}

/-- The operand of a load is the constant whose index is the next byte. That byte may be missing,
and the index may be beyond the pool. -/
theorem operandAt_constant (represents : chunk.Represents written pooled) (offset : Nat) :
    chunk.operandAt offset .constant
      = match written[offset + 1]? with
        | none => .error (.indexOutOfRange (offset + 1) written.length)
        | some (index, _) =>
            match pooled[index.toNat]? with
            | none => .error (.indexOutOfRange index.toNat pooled.length)
            | some value => .ok (some value) := by
  unfold operandAt
  rw [represents.byteAt]
  cases written[offset + 1]? with
  | none => rfl
  | some pair =>
      obtain ⟨index, line⟩ := pair
      show (chunk.constantAt index.toNat >>= fun value => pure (some value)) = _
      rw [represents.constantAt]
      cases hvalue : pooled[index.toNat]? <;> simp only [hvalue] <;> rfl

/-- What is read at an offset depends on the byte there: it is the code of a load, whose operand
is then read as well, or that of a return, or of nothing. -/
theorem entryAt_eq (represents : chunk.Represents written pooled) {offset : Nat} {byte : UInt8}
    {line : UInt32} (h : written[offset]? = some (byte, line)) :
    chunk.entryAt offset
      = if byte = 0 then
          (chunk.operandAt offset .constant).map fun operand => ⟨offset, .constant, line, operand⟩
        else if byte = 1 then .ok ⟨offset, .ret, line, none⟩
        else .error (.unknownOpcode byte offset) := by
  have hopcode := represents.opcodeAt offset
  have hline := represents.lineAt offset
  rw [h] at hopcode hline
  unfold entryAt
  rw [hopcode, hline]
  by_cases hzero : byte = 0
  · simp only [hzero, if_true]
    show (chunk.operandAt offset .constant >>= fun operand => _) = _
    cases chunk.operandAt offset .constant <;> rfl
  · by_cases hone : byte = 1
    · subst hone
      rfl
    · -- Any other byte has been refused before the line is read.
      simp only [hzero, hone, if_false]
      rfl

/-- What is read at an offset within the code. Either an instruction stands there, and the entry
tells of it, or the bytes from there on stop being code, and the fault is the reason. -/
theorem entryAt_cases (represents : chunk.Represents written pooled) {offset : Nat}
    (h : offset < chunk.size) :
    (∃ instruction entry rest,
        chunk.code.items.toList.drop offset = instruction.encode ++ rest
        ∧ instruction.Within chunk.constants.size
        ∧ chunk.entryAt offset = .ok entry
        ∧ entry.Describes chunk offset instruction)
      ∨ ∃ fault, chunk.entryAt offset = .error fault
          ∧ Stops chunk.constants.size chunk.size (chunk.code.items.toList.drop offset)
              (some fault) := by
  obtain ⟨hsize, hpool⟩ := represents.size
  rw [hsize] at h
  rcases hpair : written[offset] with ⟨byte, line⟩
  have hget : written[offset]? = some (byte, line) := by
    rw [List.getElem?_eq_getElem h, hpair]
  have hdrop : written.drop offset = (byte, line) :: written.drop (offset + 1) := by
    rw [List.drop_eq_getElem_cons h, hpair]
  have hcode : chunk.code.items.toList.drop offset
      = byte :: (written.drop (offset + 1)).map Prod.fst := by
    rw [represents.code, ← List.map_drop, hdrop, List.map_cons]
  have hline : chunk.lines.items.toList[offset]? = some line := by
    rw [represents.lines, List.getElem?_map, hget]
    rfl
  rw [hcode, hsize, hpool, entryAt_eq represents hget]
  by_cases hzero : byte = 0
  · -- A load. Its operand may be missing, or be an index that the pool does not have.
    rw [if_pos hzero, operandAt_constant represents, hzero]
    cases hnext : written[offset + 1]? with
    | none =>
        have hend : written.length ≤ offset + 1 := List.getElem?_eq_none_iff.mp hnext
        have hlast : offset + 1 = written.length := Nat.le_antisymm h hend
        rw [List.drop_eq_nil_iff.mpr hend, hlast]
        exact .inr ⟨_, rfl, .cut⟩
    | some pair =>
        obtain ⟨index, line'⟩ := pair
        obtain ⟨hlt, hindex⟩ := List.getElem?_eq_some_iff.mp hnext
        rw [List.drop_eq_getElem_cons hlt, hindex, List.map_cons]
        cases hvalue : pooled[index.toNat]? with
        | none =>
            have hbeyond : pooled.length ≤ index.toNat := List.getElem?_eq_none_iff.mp hvalue
            refine .inr ⟨_, ?_, .beyond index _ hbeyond⟩
            simp only [hvalue]
            rfl
        | some value =>
            have hoperand : (Instruction.constant index).operand
                chunk.constants.values.items.toList = some value := by
              rw [represents.constants]
              exact hvalue
            refine .inl ⟨.constant index, ⟨offset, .constant, line, some value⟩, _, rfl, ?_, ?_,
              rfl, rfl, hline, hoperand.symm, ?_⟩
            · exact (List.getElem?_eq_some_iff.mp hvalue).1
            · simp only [hvalue]
              rfl
            · rw [hoperand]
              rfl
  · rw [if_neg hzero]
    by_cases hone : byte = 1
    · rw [if_pos hone, hone]
      exact .inl ⟨.ret, ⟨offset, .ret, line, none⟩, _, rfl, trivial, rfl,
        rfl, rfl, hline, rfl, rfl⟩
    · have htwo : 2 ≤ byte.toNat := by
        have h0 : byte.toNat ≠ 0 := fun h => hzero (UInt8.toNat_inj.mp h)
        have h1 : byte.toNat ≠ 1 := fun h => hone (UInt8.toNat_inj.mp h)
        omega
      -- The fault names the offset, which is what the bytes from it on leave of the length.
      have hplace : written.length
          - (((written.drop (offset + 1)).map Prod.fst).length + 1) = offset := by
        rw [List.length_map, List.length_drop]
        omega
      have hstop : Stops pooled.length written.length
          (byte :: (written.drop (offset + 1)).map Prod.fst) _ := .unknown byte _ htwo
      rw [hplace] at hstop
      rw [if_neg hone]
      exact .inr ⟨_, rfl, hstop⟩

/-- What a walk reads, by induction along it: the instructions up to where the code stops being
code, and then the fault that says how it stops. -/
theorem walk_reads (represents : chunk.Represents written pooled) (offset : Nat) :
    ∃ instructions rest,
      chunk.code.items.toList.drop offset = encodeAll instructions ++ rest
      ∧ (∀ instruction ∈ instructions, instruction.Within chunk.constants.size)
      ∧ Listed chunk offset instructions (chunk.walk offset).entries
      ∧ Stops chunk.constants.size chunk.size rest (chunk.walk offset).fault := by
  fun_induction walk chunk offset with
  | case1 offset h entry hentry ih =>
      -- An entry was read: its instruction comes before those of the rest of the walk, which
      -- goes on where the instruction ends.
      rcases entryAt_cases represents h with
        ⟨instruction, entry', rest', hdrop, hwithin, hentry', hdescribes⟩ | ⟨fault, herror, -⟩
      · obtain rfl : entry' = entry := Except.ok.inj (hentry'.symm.trans hentry)
        obtain ⟨instructions, rest, hrest, hall, hlisted, hstops⟩ := ih
        have hnext : offset + 1 + entry'.opcode.operandCount
            = offset + instruction.encode.length := by
          rw [hdescribes.opcode, length_encode, Nat.add_assoc]
        rw [hnext] at hrest hlisted hstops
        rw [hnext]
        have hsplit : rest' = encodeAll instructions ++ rest := by
          rw [← hrest, ← List.drop_drop, hdrop, List.drop_left]
        refine ⟨instruction :: instructions, rest, ?_, ?_, .cons hdescribes hlisted, hstops⟩
        · rw [hdrop, hsplit, encodeAll_cons, List.append_assoc]
        · intro other hother
          rcases List.mem_cons.mp hother with rfl | hother
          · exact hwithin
          · exact hall other hother
      · rw [herror] at hentry
        nomatch hentry
  | case2 offset h fault hentry =>
      -- A read failed: the walk ends, and the bytes from here on are where the code stops.
      rcases entryAt_cases represents h with ⟨_, entry, _, _, _, hok, _⟩ | ⟨fault', herror, hstops⟩
      · rw [hok] at hentry
        nomatch hentry
      · obtain rfl : fault' = fault := Except.error.inj (herror.symm.trans hentry)
        exact ⟨[], chunk.code.items.toList.drop offset, rfl, by simp, .nil offset, hstops⟩
  | case3 offset h =>
      -- The walk has come to the end, or began beyond it.
      have hend : chunk.code.items.toList.drop offset = [] := by
        rw [List.drop_eq_nil_iff, Array.length_toList]
        exact Nat.not_lt.mp h
      exact ⟨[], [], hend, by simp, .nil offset, .finished⟩

/-- A walk of bytes that are instructions to their end lists these, without a fault. -/
theorem walk_of_isCode (represents : chunk.Represents written pooled) {offset : Nat}
    {instructions : List Instruction}
    (within : ∀ instruction ∈ instructions, instruction.Within chunk.constants.size)
    (h : chunk.code.items.toList.drop offset = encodeAll instructions) :
    (chunk.walk offset).fault = none
      ∧ Listed chunk offset instructions (chunk.walk offset).entries := by
  obtain ⟨found, rest, hdrop, hfound, hlisted, hstops⟩ := walk_reads represents offset
  rw [h] at hdrop
  have hfault : (chunk.walk offset).fault = none :=
    (isCode_iff_of_stops hstops hfound).mp ⟨instructions, within, hdrop.symm⟩
  rw [hfault] at hstops
  cases hstops
  rw [List.append_nil] at hdrop
  have hend : Stops chunk.constants.size chunk.size [] none := .finished
  -- Each of the two lists of instructions is a beginning of the other.
  have hfirst : instructions <+: found :=
    instructions_unique hend within (by simp [hdrop])
  have hsecond : found <+: instructions :=
    instructions_unique hend hfound (by simp [hdrop])
  obtain rfl : instructions = found :=
    hfirst.eq_of_length (Nat.le_antisymm hfirst.length_le hsecond.length_le)
  exact ⟨hfault, hlisted⟩

/-- The fault of a walk, read off the bytes at which it stops. -/
theorem fault_of_stops {code rest : List UInt8} {poolSize stop : Nat} {fault : Option Fault}
    (hdrop : code.drop stop = rest) (hstops : Stops poolSize code.length rest fault) :
    (code.length ≤ stop → fault = none)
      ∧ (stop < code.length → ∃ byte, code[stop]? = some byte
        ∧ ((2 ≤ byte.toNat ∧ fault = some (.unknownOpcode byte stop))
          ∨ (byte = 0 ∧ stop + 1 = code.length
            ∧ fault = some (.indexOutOfRange code.length code.length))
          ∨ (byte = 0 ∧ ∃ index, code[stop + 1]? = some index ∧ poolSize ≤ index.toNat
            ∧ fault = some (.indexOutOfRange index.toNat poolSize)))) := by
  have hlength : code.length - stop = rest.length := by
    rw [← hdrop, List.length_drop]
  have hget : ∀ n, code[stop + n]? = rest[n]? := by
    intro n
    rw [← hdrop, List.getElem?_drop]
  have hfirst := hget 0
  rw [Nat.add_zero] at hfirst
  cases hstops with
  | finished =>
      rw [List.length_nil] at hlength
      exact ⟨fun _ => rfl, fun h => absurd h (by omega)⟩
  | unknown byte rest h =>
      rw [List.length_cons] at hlength
      have hplace : code.length - (rest.length + 1) = stop := by omega
      rw [hplace]
      exact ⟨fun hle => absurd hle (by omega), fun _ => ⟨byte, hfirst, .inl ⟨h, rfl⟩⟩⟩
  | cut =>
      rw [List.length_singleton] at hlength
      refine ⟨fun hle => absurd hle (by omega), fun _ => ⟨0, hfirst, .inr (.inl ⟨rfl, ?_, rfl⟩)⟩⟩
      omega
  | beyond index rest h =>
      rw [List.length_cons, List.length_cons] at hlength
      exact ⟨fun hle => absurd hle (by omega),
        fun _ => ⟨0, hfirst, .inr (.inr ⟨rfl, index, hget 1, h, rfl⟩)⟩⟩

end Walk

/-- The walk of any chunk that a run reaches, from any offset. It has no more entries than there
are bytes from the offset on, the fault counted as one, and their offsets increase. It ends
without a fault exactly if the offset is past the end or everything from it on is code.

The entries are those of the instructions that cover the longest part from the offset on that
is code, one for each and in their order. If that part ends where the code ends then there is no
fault. Otherwise the byte after it says which fault there is: that of an unknown opcode, that of
a load at the very end, whose operand is missing, or that of a load whose operand is an index
that the pool does not have. -/
theorem walk_reached (settings : Settings) (commands : List Command) (offset : Nat) :
    let chunk := reached settings commands
    let code := chunk.code.items.toList
    let poolSize := chunk.constants.size
    let listing := chunk.walk offset
    listing.entries.length + listing.fault.toList.length ≤ code.length - offset
    ∧ (listing.entries.map Entry.offset).Pairwise (· < ·)
    ∧ (listing.fault = none ↔ code.length ≤ offset ∨ IsCode poolSize (code.drop offset))
    ∧ ∃ instructions, IsLongest poolSize (code.drop offset) instructions
      ∧ listing.entries.length = instructions.length
      ∧ (∀ (index : Nat) (instruction : Instruction), instructions[index]? = some instruction →
          ∃ entry, listing.entries[index]? = some entry
            ∧ entry.Describes chunk (offset + (encodeAll (instructions.take index)).length)
                instruction)
      ∧ let stop := offset + (encodeAll instructions).length
        (code.length ≤ stop → listing.fault = none)
        ∧ (stop < code.length → ∃ byte, code[stop]? = some byte
          ∧ ((2 ≤ byte.toNat ∧ listing.fault = some (.unknownOpcode byte stop))
            ∨ (byte = 0 ∧ stop + 1 = code.length
              ∧ listing.fault = some (.indexOutOfRange code.length code.length))
            ∨ (byte = 0 ∧ ∃ index, code[stop + 1]? = some index ∧ poolSize ≤ index.toNat
              ∧ listing.fault = some (.indexOutOfRange index.toNat poolSize)))) := by
  intro chunk code poolSize listing
  have represents := (shows_reached settings commands).holds.represents
  obtain ⟨instructions, rest, hdrop, hwithin, hlisted, hstops⟩ := walk_reads represents offset
  have hsize : chunk.size = code.length := Array.length_toList.symm
  have hlength : code.length - offset = (encodeAll instructions).length + rest.length := by
    rw [← List.length_drop, ← List.length_append]
    exact congrArg List.length hdrop
  refine ⟨?_, hlisted.increasing, ?_, instructions, ?_, hlisted.length_eq, ?_, ?_⟩
  · have hfault : listing.fault.toList.length ≤ rest.length := length_fault_le hstops
    have hentries := length_le_length_encodeAll instructions
    rw [hlength, hlisted.length_eq]
    omega
  · -- Beyond the end there are no bytes, and no bytes are code as well.
    have hcode := isCode_iff_of_stops hstops hwithin
    rw [← hdrop] at hcode
    constructor
    · intro hnone
      exact .inr (hcode.mpr hnone)
    · rintro (hend | hiscode)
      · have hempty : code.drop offset = [] := List.drop_eq_nil_iff.mpr hend
        exact hcode.mp ⟨[], by simp, hempty⟩
      · exact hcode.mp hiscode
  · show IsLongest _ (chunk.code.items.toList.drop offset) instructions
    rw [hdrop]
    exact isLongest_of_stops hstops hwithin
  · intro index instruction hinstruction
    exact hlisted.getElem? hinstruction
  · have hrest : code.drop (offset + (encodeAll instructions).length) = rest := by
      rw [← List.drop_drop]
      exact (congrArg (List.drop _) hdrop).trans List.drop_left
    rw [hsize] at hstops
    exact fault_of_stops hrest hstops

end Bytecode.Chunk
