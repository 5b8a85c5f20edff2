import Bytecode.Opcode
import Bytecode.Pool.Basic

/-!
# `Bytecode.Chunk.Basic`: chunks of bytecode

A `Chunk` is a sequence of bytes of code, the source line of each byte, and the pool of
constants that the code refers to. Code and lines are two buffers that share one capacity: a
full chunk reserves room in the code, then in the lines, and moves its capacity only when both
have been granted. If the second is refused, the room that the first was given stays reserved,
and nothing else has changed. The heap behind both is the whole one, as it is behind the pool.

The reads check their index and name it in the fault. Code holds raw bytes, so a byte is decoded
only where it is read as the code of an instruction.
-/

set_option autoImplicit false

namespace Bytecode

/-- A chunk of bytecode: the bytes of code, the source line of each of them, the number of bytes
that the chunk holds without growing, and the constants that the code refers to. -/
structure Chunk where
  code : Buffer UInt8
  lines : Buffer UInt32
  capacity : Nat
  constants : Pool

namespace Chunk

/-- The chunk without code and constants. Nothing has been reserved for it. -/
def empty : Chunk := ⟨.empty, .empty, 0, .empty⟩

instance : Inhabited Chunk := ⟨empty⟩

/-- The number of bytes of code. -/
def size (chunk : Chunk) : Nat := chunk.code.size

/-- There is no code. -/
def isEmpty (chunk : Chunk) : Bool := decide (chunk.size = 0)

/-- How full the chunk's code is. -/
def extent (chunk : Chunk) : Extent := ⟨chunk.size, chunk.capacity⟩

/-! ### Appending -/

/-- Reserves storage for a new capacity, and moves to it once both buffers have been granted
it. -/
def growTo (settings : Settings) (chunk : Chunk) (capacity : Nat) : Outcome Chunk Unit :=
  ((chunk.code.reserve .whole settings capacity).within fun code => { chunk with code }).andThen
    fun chunk _ =>
      ((chunk.lines.reserve .whole settings capacity).within fun lines =>
          { chunk with lines }).andThen
        fun chunk _ => .ok { chunk with capacity } ()

/-- Sees to it that there is room for one more byte, by growing a full chunk. -/
def makeRoom (settings : Settings) (chunk : Chunk) : Outcome Chunk Unit :=
  if chunk.size = chunk.capacity then
    (Outcome.read chunk (settings.growth.next chunk.capacity)).andThen (growTo settings)
  else
    .ok chunk ()

/-- Puts a byte and its line at the end. The caller has seen to the room. -/
def store (chunk : Chunk) (byte : UInt8) (line : UInt32) : Chunk :=
  { chunk with code := chunk.code.store byte, lines := chunk.lines.store line }

/-- Adds a byte and its line at the end, after making room for them. -/
def push (settings : Settings) (chunk : Chunk) (byte : UInt8) (line : UInt32) :
    Outcome Chunk Unit :=
  (chunk.makeRoom settings).andThen fun chunk _ => .ok (chunk.store byte line) ()

/-- Adds the code of an instruction. -/
def pushOpcode (settings : Settings) (chunk : Chunk) (opcode : Opcode) (line : UInt32) :
    Outcome Chunk Unit :=
  chunk.push settings opcode.toByte line

/-- Adds a constant to the pool. The result is its index. -/
def pushConstant (settings : Settings) (chunk : Chunk) (value : Value) : Outcome Chunk Nat :=
  ((chunk.constants.push settings value).within fun constants => { chunk with constants }).andThen
    fun chunk _ => .ok chunk (chunk.constants.size - 1)

/-- Gives the storage of the code, the lines and the constants back, in this order. The chunk is
empty afterwards. -/
def release (settings : Settings) (chunk : Chunk) : Outcome Chunk Unit :=
  ((chunk.code.release settings).within fun code => { chunk with code }).andThen fun chunk _ =>
    ((chunk.lines.release settings).within fun lines =>
        { chunk with lines, capacity := 0 }).andThen
      fun chunk _ =>
        (chunk.constants.release settings).within fun constants => { chunk with constants }

/-! ### Reading -/

/-- The byte of code at an offset. -/
def byteAt (chunk : Chunk) (offset : Nat) : Except Fault UInt8 := readAt chunk.code.items offset

/-- The source line of the byte at an offset. -/
def lineAt (chunk : Chunk) (offset : Nat) : Except Fault UInt32 := readAt chunk.lines.items offset

/-- The kind of the instruction whose code is at an offset. This means something only where an
instruction starts: an operand byte may be the code of anything. -/
def opcodeAt (chunk : Chunk) (offset : Nat) : Except Fault Opcode := do
  let byte ← chunk.byteAt offset
  match Opcode.ofByte? byte with
  | some opcode => .ok opcode
  | none => .error (.unknownOpcode byte offset)

/-- The constant at an index of the pool. -/
def constantAt (chunk : Chunk) (index : Nat) : Except Fault Value := chunk.constants.get index

end Chunk

end Bytecode
