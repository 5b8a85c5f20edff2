import Bytecode.Fault
import Bytecode.Opcode
import Bytecode.Value

/-!
# `Bytecode.Proofs.Chunk.Grammar`: what code is made of

Code is meant to be a sequence of instructions, each a byte that names its kind and the operand
bytes of that kind. This file says so of plain lists of bytes, with no chunk and no walk in
sight: `Instruction` is one instruction, `encode` its bytes, `Within` the condition that the
constant it loads exists, and `IsCode` a list of bytes that is nothing but instructions.

Bytes may also begin as code and go wrong later. `Stops` lists the ways in which no further
instruction stands at the head of a list of bytes, with the fault that each of them is, or with
none where the bytes are at their end.

* `eq_nil_of_stops`: where bytes stop being code, not one instruction can be read.
* `instructions_unique`: instructions are told apart by their first bytes, so whatever list of
  instructions some bytes begin with, it is a beginning of the list that runs up to the stop.
* `isLongest_of_stops`: that list covers the longest part of the bytes that is code.
-/

set_option autoImplicit false

namespace Bytecode

/-- An instruction as it stands in code. -/
inductive Instruction where
  | constant (index : UInt8)
  | ret
  deriving DecidableEq

namespace Instruction

/-- The bytes of an instruction. -/
def encode : Instruction → List UInt8
  | constant index => [0, index]
  | ret => [1]

/-- The kind of an instruction. -/
def opcode : Instruction → Opcode
  | constant _ => .constant
  | ret => .ret

/-- The name of an instruction in a listing. -/
def mnemonic : Instruction → Text
  | constant _ => "OP_CONSTANT".toList
  | ret => "OP_RETURN".toList

/-- The constant that an instruction loads, if it loads one, is in a pool of the given size. -/
def Within (poolSize : Nat) : Instruction → Prop
  | constant index => index.toNat < poolSize
  | ret => True

/-- The value that an instruction loads from a pool of values. -/
def operand (values : List Value) : Instruction → Option Value
  | constant index => values[index.toNat]?
  | ret => none

/-- The bytes of instructions one after the other. -/
def encodeAll (instructions : List Instruction) : List UInt8 := instructions.flatMap encode

/-- Bytes that are instructions one after the other, whose constants are in a pool of the given
size. -/
def IsCode (poolSize : Nat) (bytes : List UInt8) : Prop :=
  ∃ instructions : List Instruction,
    (∀ instruction ∈ instructions, instruction.Within poolSize)
    ∧ bytes = encodeAll instructions

/-- The instructions cover the longest part at the start of the bytes that is code. -/
structure IsLongest (poolSize : Nat) (bytes : List UInt8) (instructions : List Instruction) :
    Prop where
  within : ∀ instruction ∈ instructions, instruction.Within poolSize
  starts : encodeAll instructions <+: bytes
  longest : ∀ others : List Instruction, (∀ instruction ∈ others, instruction.Within poolSize) →
    encodeAll others <+: bytes → (encodeAll others).length ≤ (encodeAll instructions).length

/-- The ways in which bytes at the end of code of the given length stop being code, and the
fault of each: there are none left, or the first is the code of no instruction, or it is the
code of a load whose operand is missing, or the operand is an index beyond the pool. -/
inductive Stops (poolSize length : Nat) : List UInt8 → Option Fault → Prop where
  | finished : Stops poolSize length [] none
  | unknown (byte : UInt8) (rest : List UInt8) (h : 2 ≤ byte.toNat) :
      Stops poolSize length (byte :: rest)
        (some (.unknownOpcode byte (length - (rest.length + 1))))
  | cut : Stops poolSize length [0] (some (.indexOutOfRange length length))
  | beyond (index : UInt8) (rest : List UInt8) (h : poolSize ≤ index.toNat) :
      Stops poolSize length (0 :: index :: rest)
        (some (.indexOutOfRange index.toNat poolSize))

/-- An instruction takes one byte and those of its operands. -/
theorem length_encode (instruction : Instruction) :
    instruction.encode.length = 1 + instruction.opcode.operandCount := by
  cases instruction <;> rfl

@[simp] theorem encodeAll_nil : encodeAll [] = [] := rfl

@[simp] theorem encodeAll_cons (instruction : Instruction) (instructions : List Instruction) :
    encodeAll (instruction :: instructions) = instruction.encode ++ encodeAll instructions :=
  List.flatMap_cons

/-- There are no more instructions than bytes. -/
theorem length_le_length_encodeAll (instructions : List Instruction) :
    instructions.length ≤ (encodeAll instructions).length := by
  induction instructions with
  | nil => exact Nat.le_refl 0
  | cons instruction instructions ih =>
      rw [encodeAll_cons, List.length_append, length_encode, List.length_cons]
      omega

/-- Two instructions that both stand at the head of some bytes are the same. -/
theorem eq_of_starts {first second : Instruction} {tail bytes : List UInt8}
    (h : first.encode ++ tail <+: second.encode ++ bytes) :
    first = second ∧ tail <+: bytes := by
  cases first with
  | constant index =>
      cases second with
      | constant index' =>
          change 0 :: index :: tail <+: 0 :: index' :: bytes at h
          rw [List.cons_prefix_cons, List.cons_prefix_cons] at h
          obtain ⟨-, rfl, htail⟩ := h
          exact ⟨rfl, htail⟩
      | ret =>
          change 0 :: index :: tail <+: 1 :: bytes at h
          rw [List.cons_prefix_cons] at h
          exact absurd h.1 (by decide)
  | ret =>
      cases second with
      | constant index' =>
          change 1 :: tail <+: 0 :: index' :: bytes at h
          rw [List.cons_prefix_cons] at h
          exact absurd h.1 (by decide)
      | ret =>
          change 1 :: tail <+: 1 :: bytes at h
          rw [List.cons_prefix_cons] at h
          exact ⟨rfl, h.2⟩

variable {poolSize length : Nat}

/-- There is a fault only where bytes are left over. -/
theorem length_fault_le {rest : List UInt8} {fault : Option Fault}
    (stops : Stops poolSize length rest fault) : fault.toList.length ≤ rest.length := by
  cases stops <;> simp

/-- Where bytes stop being code, not one instruction can be read. -/
theorem eq_nil_of_stops {rest : List UInt8} {fault : Option Fault}
    (stops : Stops poolSize length rest fault) {instructions : List Instruction}
    (within : ∀ instruction ∈ instructions, instruction.Within poolSize)
    (starts : encodeAll instructions <+: rest) : instructions = [] := by
  cases instructions with
  | nil => rfl
  | cons instruction instructions =>
      exfalso
      rw [encodeAll_cons] at starts
      have hfits := within instruction List.mem_cons_self
      -- The first byte of an instruction is 0 or 1, which leaves the last two ways to stop.
      cases stops with
      | finished => cases instruction <;> simp [encode] at starts
      | unknown byte rest h =>
          cases instruction <;>
            · simp only [encode, List.cons_append, List.cons_prefix_cons] at starts
              rw [← starts.1] at h
              exact absurd h (by decide)
      | cut => cases instruction <;> simp [encode] at starts
      | beyond index rest h =>
          cases instruction with
          | ret => simp [encode] at starts
          | constant index' =>
              simp only [encode, List.cons_append, List.cons_prefix_cons] at starts
              obtain ⟨-, rfl, -⟩ := starts
              exact absurd hfits (Nat.not_lt.mpr h)

/-- Instructions that some bytes begin with are a beginning of those up to the stop. -/
theorem instructions_unique {rest : List UInt8} {fault : Option Fault}
    (stops : Stops poolSize length rest fault) {others instructions : List Instruction}
    (within : ∀ instruction ∈ others, instruction.Within poolSize)
    (starts : encodeAll others <+: encodeAll instructions ++ rest) : others <+: instructions := by
  induction instructions generalizing others with
  | nil =>
      obtain rfl : others = [] := eq_nil_of_stops stops within starts
      exact List.nil_prefix
  | cons instruction instructions ih =>
      cases others with
      | nil => exact List.nil_prefix
      | cons other others =>
          rw [encodeAll_cons, encodeAll_cons, List.append_assoc] at starts
          obtain ⟨rfl, htail⟩ := eq_of_starts starts
          rw [List.cons_prefix_cons]
          exact ⟨rfl, ih (fun i hi => within i (List.mem_cons_of_mem _ hi)) htail⟩

/-- Fewer instructions from the same start have fewer bytes. -/
theorem length_encodeAll_le {others instructions : List Instruction}
    (h : others <+: instructions) :
    (encodeAll others).length ≤ (encodeAll instructions).length := by
  obtain ⟨more, rfl⟩ := h
  unfold encodeAll
  rw [List.flatMap_append, List.length_append]
  omega

/-- The instructions up to where bytes stop being code are the longest part that is. -/
theorem isLongest_of_stops {rest : List UInt8} {fault : Option Fault}
    (stops : Stops poolSize length rest fault) {instructions : List Instruction}
    (within : ∀ instruction ∈ instructions, instruction.Within poolSize) :
    IsLongest poolSize (encodeAll instructions ++ rest) instructions where
  within := within
  starts := List.prefix_append _ _
  longest := fun _ hothers starts =>
    length_encodeAll_le (instructions_unique stops hothers starts)

/-- Bytes are code to their end exactly if no fault stops them before it. -/
theorem isCode_iff_of_stops {rest : List UInt8} {fault : Option Fault}
    (stops : Stops poolSize length rest fault) {instructions : List Instruction}
    (within : ∀ instruction ∈ instructions, instruction.Within poolSize) :
    IsCode poolSize (encodeAll instructions ++ rest) ↔ fault = none := by
  constructor
  · -- Instructions to the very end would be longer than the longest, if bytes were left over.
    rintro ⟨others, hothers, heq⟩
    have hlength := (isLongest_of_stops stops within).longest others hothers
      (heq ▸ List.prefix_rfl)
    rw [← heq, List.length_append] at hlength
    have hrest : rest = [] := List.eq_nil_of_length_eq_zero (by omega)
    subst hrest
    cases stops
    rfl
  · rintro rfl
    cases stops
    exact ⟨instructions, within, List.append_nil _⟩

end Instruction

end Bytecode
