import Bytecode.Chunk.Dump
import Bytecode.Chunk.Walk
import Bytecode.Window

/-!
# `Bytecode.Chunk.Command`: requests to a chunk

Everything that can be asked of a chunk is a `Chunk.Command`, so a history of a chunk is a list
of commands. Only `push`, `pushOpcode`, `pushConstant` and `release` change the chunk.
-/

set_option autoImplicit false

namespace Bytecode.Chunk

/-- What of a chunk can be seen without reading its contents. -/
structure Summary where
  code : Extent
  isEmpty : Bool
  constants : Extent
  constantsEmpty : Bool
  deriving DecidableEq

/-- The summary of a chunk. -/
def summary (chunk : Chunk) : Summary :=
  ⟨chunk.extent, chunk.isEmpty, chunk.constants.extent, chunk.constants.isEmpty⟩

/-- A request to a chunk. -/
inductive Command where
  | push (byte : UInt8) (line : UInt32)
  | pushOpcode (opcode : Opcode) (line : UInt32)
  | pushConstant (value : Value)
  | release
  | byteAt (offset : Nat)
  | lineAt (offset : Nat)
  | opcodeAt (offset : Nat)
  | constantAt (index : Nat)
  | code (window : Window)
  | lines (window : Window)
  | constants (window : Window)
  | summary
  | walk (offset : Nat)
  | dump (format : Format)
  | dumpConstants (format : Format)
  deriving DecidableEq

/-- What a chunk answers when it does not refuse. -/
inductive Answer where
  | done
  | index (index : Nat)
  | byte (byte : UInt8)
  | line (line : UInt32)
  | opcode (opcode : Opcode)
  | value (value : Value)
  | bytes (bytes : List UInt8)
  | lines (lines : List UInt32)
  | values (values : List Value)
  | summary (summary : Summary)
  | listing (listing : Listing)
  | text (text : Text)
  deriving DecidableEq

/-- Carries out a command. -/
def perform (settings : Settings) (chunk : Chunk) : Command → Outcome Chunk Answer
  | .push byte line => (chunk.push settings byte line).map fun _ => .done
  | .pushOpcode opcode line => (chunk.pushOpcode settings opcode line).map fun _ => .done
  | .pushConstant value => (chunk.pushConstant settings value).map .index
  | .release => (chunk.release settings).map fun _ => .done
  | .byteAt offset => .read chunk ((chunk.byteAt offset).map .byte)
  | .lineAt offset => .read chunk ((chunk.lineAt offset).map .line)
  | .opcodeAt offset => .read chunk ((chunk.opcodeAt offset).map .opcode)
  | .constantAt index => .read chunk ((chunk.constantAt index).map .value)
  | .code window => .ok chunk (.bytes (window.view chunk.code.items))
  | .lines window => .ok chunk (.lines (window.view chunk.lines.items))
  | .constants window => .ok chunk (.values (window.view chunk.constants.values.items))
  | .summary => .ok chunk (.summary chunk.summary)
  | .walk offset => .ok chunk (.listing (chunk.walk offset))
  | .dump format => .ok chunk (.text (chunk.dump format))
  | .dumpConstants format => .ok chunk (.text (chunk.constants.dump format))

end Bytecode.Chunk
