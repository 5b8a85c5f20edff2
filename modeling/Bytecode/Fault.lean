import Bytecode.Text.Record

/-!
# `Bytecode.Fault`: why an operation was refused

An operation on bytecode can fail in three ways, and each carries what a reader needs to find
the place. `Fault.message` is the sentence shown to a user, which no format changes.
`Fault.dump` is the record shown to a developer, whose numbers follow the format.
-/

set_option autoImplicit false

namespace Bytecode

/-- A reason for which an operation was refused. -/
inductive Fault where
  /-- A buffer could not be given room for the requested number of elements. -/
  | outOfMemory (requested : Nat)
  /-- A read at an index that the length does not reach. -/
  | indexOutOfRange (index length : Nat)
  /-- The byte at an offset is the code of no instruction. -/
  | unknownOpcode (byte : UInt8) (offset : Nat)
  deriving DecidableEq

namespace Fault

/-- The sentence that reports the fault. -/
def message : Fault → Text
  | outOfMemory requested =>
      "out of memory growing buffer to ".toList ++ numeral requested ++ " elements".toList
  | indexOutOfRange index length =>
      "index ".toList ++ numeral index ++ " out of range for length ".toList ++ numeral length
  | unknownOpcode byte offset =>
      "unknown opcode ".toList ++ numeral byte.toNat ++ " at offset ".toList ++ numeral offset

/-- The fault as a record, with its numbers in the given format. -/
def record (format : Format) : Fault → Record
  | outOfMemory requested =>
      ⟨"OutOfMemory".toList, [("requested".toList, .leaf (format.natural requested))]⟩
  | indexOutOfRange index length =>
      ⟨"IndexOutOfRange".toList,
        [("index".toList, .leaf (format.natural index)),
          ("len".toList, .leaf (format.natural length))]⟩
  | unknownOpcode byte offset =>
      ⟨"UnknownOpCode".toList,
        [("byte".toList, .leaf (format.natural byte.toNat)),
          ("offset".toList, .leaf (format.natural offset))]⟩

/-- The record of the fault written out. -/
def dump (format : Format) (fault : Fault) : Text := (fault.record format).render format

end Fault

/-- A checked read of an array: the element, or the fault that names the index and the length. -/
def readAt {α : Type} (elements : Array α) (index : Nat) : Except Fault α :=
  match elements[index]? with
  | some element => .ok element
  | none => .error (.indexOutOfRange index elements.size)

end Bytecode
