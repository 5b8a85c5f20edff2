import Bytecode.Text.Format

/-!
# `Bytecode.Opcode`: the kinds of instructions

An instruction is one byte that names its kind, followed by as many operand bytes as the kind
takes. The codes of the kinds are their places in `Opcode.all`, so a byte is the code of a kind
exactly if it is below the number of kinds (`ofByte?_eq_none_iff`), and reading the code of a
kind gives the kind back (`ofByte?_toByte`).
-/

set_option autoImplicit false

namespace Bytecode

/-- The kind of an instruction. -/
inductive Opcode where
  /-- Loads a constant. The operand byte is the constant's index in the pool. -/
  | constant
  /-- Returns from the running code. -/
  | ret
  deriving DecidableEq

namespace Opcode

/-- Every kind, in the order of their codes. -/
def all : List Opcode := [constant, ret]

/-- The number of kinds. -/
def count : Nat := all.length

/-- The byte that stands for a kind in bytecode. -/
def toByte : Opcode → UInt8
  | constant => 0
  | ret => 1

/-- The kind that a byte stands for, if there is one. -/
def ofByte? (byte : UInt8) : Option Opcode := all[byte.toNat]?

/-- The number of operand bytes that follow the code. -/
def operandCount : Opcode → Nat
  | constant => 1
  | ret => 0

/-- The name of a kind in listings. -/
def mnemonic : Opcode → Text
  | constant => "OP_CONSTANT".toList
  | ret => "OP_RETURN".toList

/-- The bare name of a kind, which no format changes. -/
def name : Opcode → Text
  | constant => "Constant".toList
  | ret => "Return".toList

/-- The mnemonic written in the given format. -/
def text (format : Format) (opcode : Opcode) : Text := format.word opcode.mnemonic

/-- The sentence that reports a byte that is the code of no kind. -/
def unknownMessage (byte : UInt8) : Text :=
  "No discriminant in enum `OpCode` matches the value `".toList ++ numeral byte.toNat ++ "`".toList

/-- Reading the code of a kind gives the kind back. -/
theorem ofByte?_toByte (opcode : Opcode) : ofByte? opcode.toByte = some opcode := by
  cases opcode <;> rfl

/-- A byte is the code of no kind exactly if it is not below the number of kinds. -/
theorem ofByte?_eq_none_iff (byte : UInt8) : ofByte? byte = none ↔ count ≤ byte.toNat :=
  List.getElem?_eq_none_iff

end Opcode

end Bytecode
