import Bytecode.Chunk.Basic

/-!
# `Bytecode.Chunk.Dump`: a chunk as a record

The dump of a chunk is a record of everything visible of it: its bytes, their lines, its
capacity and its constants. The format reaches every number and value in it, and the alternate
form spreads it over several lines.
-/

set_option autoImplicit false

namespace Bytecode.Chunk

/-- The chunk as a record, with its numbers and values in the given format. -/
def record (format : Format) (chunk : Chunk) : Record :=
  ⟨"Chunk".toList,
    [("code".toList,
        .list (chunk.code.items.toList.map fun byte => format.natural byte.toNat)),
      ("lines".toList,
        .list (chunk.lines.items.toList.map fun line => format.natural line.toNat)),
      ("capacity".toList, .leaf (format.natural chunk.capacity)),
      ("constants".toList, chunk.constants.item format)]⟩

/-- The record of the chunk written out. -/
def dump (format : Format) (chunk : Chunk) : Text := (chunk.record format).render format

end Bytecode.Chunk
