import Bytecode.Chunk.Basic

/-!
# `Bytecode.Chunk.Assembly`: writing instructions and runs of bytes

Above single bytes a chunk is written instruction by instruction: a `Statement` is a whole
instruction, or a constant that no instruction loads yet. Loading a constant adds it to the pool
and writes its index as the operand. The operand is one byte, so indices from 256 on are written
modulo 256.

`pushAll` and `pushConstants` write many bytes and constants in a row.
-/

set_option autoImplicit false

namespace Bytecode.Chunk

/-- What an assembler writes in one go: an instruction that loads the value, from a new place in
the pool, an instruction that returns, or a constant without an instruction. -/
inductive Statement where
  | load (value : Value) (line : UInt32)
  | ret (line : UInt32)
  | constant (value : Value)
  deriving DecidableEq

/-- Adds a constant and the instruction that loads it. The result is the index of the
constant. -/
def load (settings : Settings) (chunk : Chunk) (value : Value) (line : UInt32) :
    Outcome Chunk Nat :=
  (chunk.pushConstant settings value).andThen fun chunk index =>
    (chunk.pushOpcode settings .constant line).andThen fun chunk _ =>
      (chunk.push settings (UInt8.ofNat index) line).andThen fun chunk _ => .ok chunk index

/-- Writes a statement. The result is the index of the constant that it added, if it added
one. -/
def emit (settings : Settings) (chunk : Chunk) : Statement → Outcome Chunk (Option Nat)
  | .load value line => (chunk.load settings value line).map some
  | .ret line => (chunk.pushOpcode settings .ret line).map fun _ => none
  | .constant value => (chunk.pushConstant settings value).map some

/-- Writes the statements of a program in order. The result lists what each of them gave. -/
def assemble (settings : Settings) (chunk : Chunk) :
    List Statement → Outcome Chunk (List (Option Nat))
  | [] => .ok chunk []
  | statement :: program =>
      (chunk.emit settings statement).andThen fun chunk index =>
        (chunk.assemble settings program).map (index :: ·)

/-- Adds bytes with their lines in order, and reports the extents after the growths. -/
def pushAll (settings : Settings) (chunk : Chunk) (bytes : List (UInt8 × UInt32)) :
    Outcome Chunk (List Extent) :=
  .each (fun chunk byte => chunk.push settings byte.1 byte.2) extent chunk bytes

/-- Adds constants in order, and reports the extents of the pool after its growths. -/
def pushConstants (settings : Settings) (chunk : Chunk) (values : List Value) :
    Outcome Chunk (List Extent) :=
  .each (pushConstant settings) (fun chunk => chunk.constants.extent) chunk values

end Bytecode.Chunk
