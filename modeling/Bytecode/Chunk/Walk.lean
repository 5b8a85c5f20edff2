import Bytecode.Chunk.Basic

/-!
# `Bytecode.Chunk.Walk`: listing the instructions of a chunk

A walk reads the code of a chunk as instructions, one after the other, from a given offset to
the end. It stops at the first instruction that cannot be read in full, and keeps the entries
before it together with the fault. Every instruction takes at least one byte, so the walk comes
to an end.
-/

set_option autoImplicit false

namespace Bytecode.Chunk

/-- One instruction of a listing: where its code stands, its kind, the source line of its code,
and the constant that it loads, if it loads one. -/
structure Entry where
  offset : Nat
  opcode : Opcode
  line : UInt32
  operand : Option Value
  deriving DecidableEq

/-- The value of the operand of an instruction at an offset: the constant whose index is the
byte after the code. -/
def operandAt (chunk : Chunk) (offset : Nat) : Opcode → Except Fault (Option Value)
  | .constant => do
      let index ← chunk.byteAt (offset + 1)
      let value ← chunk.constantAt index.toNat
      return some value
  | .ret => return none

/-- The instruction at an offset, with its line and its operand. -/
def entryAt (chunk : Chunk) (offset : Nat) : Except Fault Entry := do
  let opcode ← chunk.opcodeAt offset
  let line ← chunk.lineAt offset
  let operand ← chunk.operandAt offset opcode
  return ⟨offset, opcode, line, operand⟩

/-- A listing: the instructions that could be read, and the fault that ended it, if one did. -/
structure Listing where
  entries : List Entry
  fault : Option Fault
  deriving DecidableEq

/-- The listing with an instruction before it. -/
def Listing.prepend (entry : Entry) (listing : Listing) : Listing :=
  { listing with entries := entry :: listing.entries }

/-- The instructions from an offset on. -/
def walk (chunk : Chunk) (offset : Nat) : Listing :=
  if offset < chunk.size then
    match chunk.entryAt offset with
    | .ok entry => (chunk.walk (offset + 1 + entry.opcode.operandCount)).prepend entry
    | .error fault => ⟨[], some fault⟩
  else
    ⟨[], none⟩
termination_by chunk.size - offset

end Bytecode.Chunk
