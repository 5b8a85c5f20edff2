import Bytecode.Memory.Outcome

/-!
# `Bytecode.Memory.Buffer`: growable buffers

A `Buffer` holds elements in order and knows for how many it has room. Room is asked for with
`reserve`, which is refused if the heap does not have it; `push` grows a full buffer by the policy
and then stores; `release` gives everything back.

How much a `Heap` has for one buffer differs from machine to machine, and none has more than
`addressLimit` bytes. A process has the heap `Heap.process`. `Heap.whole` is the one that refuses
nothing which can be addressed.

Storing into a buffer that has room (`store`) never fails, which is why the fallible part of
every append is the making of room before it (`makeRoom`).
-/

set_option autoImplicit false

namespace Bytecode

/-- The greatest number of bytes that a single allocation can be given, `2 ^ 63 - 1`. -/
def addressLimit : Nat := 0x7FFFFFFFFFFFFFFF

/-- The memory that buffers are given storage from, by the greatest number of bytes that it has for
one of them. -/
structure Heap where
  limit : Nat
  limit_le : limit ≤ addressLimit

namespace Heap

/-- The heap that has all that a single allocation can be given. -/
def whole : Heap := ⟨addressLimit, Nat.le_refl addressLimit⟩

/-- The heap of a process, whose address space is `2 ^ 47` bytes on common machines. -/
def process : Heap := ⟨0x800000000000, by decide⟩

end Heap

/-- A growable sequence of elements, and the number of elements that memory has been reserved
for. -/
structure Buffer (α : Type) where
  items : Array α
  reserved : Nat

namespace Buffer

variable {α : Type}

/-- The empty buffer, for which nothing has been reserved. -/
def empty : Buffer α := ⟨#[], 0⟩

/-- The number of elements. -/
def size (buffer : Buffer α) : Nat := buffer.items.size

/-- Puts an element at the end. The caller has seen to the room. -/
def store (buffer : Buffer α) (element : α) : Buffer α :=
  { buffer with items := buffer.items.push element }

/-- Storing puts the element after those that are there. -/
@[simp] theorem toList_items_store (buffer : Buffer α) (element : α) :
    (buffer.store element).items.toList = buffer.items.toList ++ [element] :=
  Array.toList_push

/-- Storing adds one element. -/
@[simp] theorem size_store (buffer : Buffer α) (element : α) :
    (buffer.store element).size = buffer.size + 1 := Array.size_push element

variable [Element α]

/-- The number of elements there is room for. Elements that take no memory always have room. -/
def capacity (buffer : Buffer α) : Nat :=
  if (Element.kind α).bytes = 0 then maxWord else buffer.reserved

/-- Asks the heap for room for `n` elements in all, which is for so many beyond those that are
there, and for no more if there are `n` already. Where there is that much room nothing changes.
Otherwise exactly that much is reserved, unless it would take more bytes than the heap has. Every
granted request is logged, also one that changed nothing. -/
def reserve (heap : Heap) (settings : Settings) (buffer : Buffer α) (n : Nat) :
    Outcome (Buffer α) Unit :=
  if n - buffer.size ≤ buffer.capacity - buffer.size then
    ⟨.ok (), buffer, settings.note (.reserved (Element.kind α) n)⟩
  else if heap.limit < (buffer.size + (n - buffer.size)) * (Element.kind α).bytes then
    .refuse buffer (.outOfMemory n)
  else
    ⟨.ok (), { buffer with reserved := buffer.size + (n - buffer.size) },
      settings.note (.reserved (Element.kind α) n)⟩

/-- Sees to it that there is room for one more element, by growing a full buffer. -/
def makeRoom (heap : Heap) (settings : Settings) (buffer : Buffer α) : Outcome (Buffer α) Unit :=
  if buffer.size = buffer.capacity then
    (Outcome.read buffer (settings.growth.next buffer.capacity)).andThen (reserve heap settings)
  else
    .ok buffer ()

/-- Puts an element at the end, after making room for it. -/
def push (heap : Heap) (settings : Settings) (buffer : Buffer α) (element : α) :
    Outcome (Buffer α) Unit :=
  (buffer.makeRoom heap settings).andThen fun buffer _ => .ok (buffer.store element) ()

/-- Gives the storage back. The buffer is empty afterwards. -/
def release (settings : Settings) (buffer : Buffer α) : Outcome (Buffer α) Unit :=
  ⟨.ok (), empty, settings.note (.released (Element.kind α) buffer.capacity)⟩

/-! ### Commands -/

/-- A request to a buffer. -/
inductive Command (α : Type) where
  | reserve (n : Nat)
  | push (element : α)
  | release
  | items

/-- What a buffer answers when it does not refuse. -/
inductive Answer (α : Type) where
  | done
  | items (elements : List α)

/-- Carries out a command on the given heap. -/
def performOn (heap : Heap) (settings : Settings) (buffer : Buffer α) :
    Command α → Outcome (Buffer α) (Answer α)
  | .reserve n => (buffer.reserve heap settings n).map fun _ => .done
  | .push element => (buffer.push heap settings element).map fun _ => .done
  | .release => (buffer.release settings).map fun _ => .done
  | .items => .ok buffer (.items buffer.items.toList)

/-- Carries out a command in a process. -/
def perform (settings : Settings) (buffer : Buffer α) (command : Command α) :
    Outcome (Buffer α) (Answer α) :=
  buffer.performOn .process settings command

end Buffer

end Bytecode
