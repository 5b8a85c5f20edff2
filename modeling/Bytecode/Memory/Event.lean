import Bytecode.Memory.Growth
import Bytecode.Value

/-!
# `Bytecode.Memory.Event`: the log of reservations and releases

A buffer holds elements of one kind, and the kind fixes how many bytes an element takes and how
the log calls it. A `MemoryEvent` is one entry of the log. Entries are made only under settings
that ask for them (`Settings.note`).
-/

set_option autoImplicit false

namespace Bytecode

/-- The kinds of elements that a buffer can hold: bytes of code, line numbers, values, and
elements that carry nothing. -/
inductive ElementKind where
  | byte
  | line
  | value
  | unit
  deriving DecidableEq

namespace ElementKind

/-- The bytes of memory that an element takes. -/
def bytes : ElementKind → Nat
  | byte => 1
  | line => 4
  | value => 16
  | unit => 0

/-- The name of the kind in the log. -/
def label : ElementKind → Text
  | byte => "u8".toList
  | line => "u32".toList
  | value => "lox_chunk::value::Value".toList
  | unit => "()".toList

end ElementKind

/-- A type whose values can be elements of a buffer. -/
class Element (α : Type) where
  /-- The kind of the elements. -/
  kind : ElementKind

instance : Element UInt8 := ⟨.byte⟩

instance : Element UInt32 := ⟨.line⟩

instance : Element Value := ⟨.value⟩

instance : Element Unit := ⟨.unit⟩

/-- An entry of the memory log. -/
inductive MemoryEvent where
  /-- A buffer was given room for a number of elements. -/
  | reserved (kind : ElementKind) (capacity : Nat)
  /-- The storage of a buffer of the given capacity was released. -/
  | released (kind : ElementKind) (capacity : Nat)
  deriving DecidableEq

/-- The line that an entry is in the written log: its level, its source, and what happened. -/
def MemoryEvent.text : MemoryEvent → Text
  | reserved kind capacity =>
      "TRACE lox_chunk::memory grow ".toList ++ kind.label ++ " to ".toList ++ numeral capacity
        ++ " elements".toList
  | released kind capacity =>
      "TRACE lox_chunk::memory free ".toList ++ numeral capacity ++ " ".toList ++ kind.label

/-- The log of a single event under the settings. -/
def Settings.note (settings : Settings) (event : MemoryEvent) : List MemoryEvent :=
  if settings.logging then [event] else []

end Bytecode
