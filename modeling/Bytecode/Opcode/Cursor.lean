import Bytecode.Opcode

/-!
# `Bytecode.Opcode.Cursor`: going through the kinds from both ends

A cursor counts how many kinds have been taken from the front of `Opcode.all` and how many from
its back. What lies between is still to come. A request that asks for more than is left answers
`none` and moves its own count to the end, so the two counts may then add up to more than the
number of kinds; from there on nothing is left on either side.
-/

set_option autoImplicit false

namespace Bytecode.Opcode

/-- A place among the kinds: how many have been taken from either end. -/
structure Cursor where
  front : Nat := 0
  back : Nat := 0
  deriving DecidableEq

namespace Cursor

/-- The number of kinds that are left. -/
def remaining (cursor : Cursor) : Nat := count - cursor.front - cursor.back

/-- Skips `n` kinds from the front and takes the next. -/
def nth (cursor : Cursor) (n : Nat) : Option Opcode × Cursor :=
  if count < cursor.front + n + 1 + cursor.back then
    (none, { cursor with front := count })
  else
    (all[cursor.front + n]?, { cursor with front := cursor.front + n + 1 })

/-- Takes the first kind that is left. -/
def next (cursor : Cursor) : Option Opcode × Cursor := cursor.nth 0

/-- Takes the last kind that is left. -/
def nextBack (cursor : Cursor) : Option Opcode × Cursor :=
  if count < cursor.front + cursor.back + 1 then
    (none, { cursor with back := count })
  else
    (all[count - (cursor.back + 1)]?, { cursor with back := cursor.back + 1 })

/-- Taking a kind from the front leaves fewer. -/
theorem remaining_of_next {cursor after : Cursor} {opcode : Opcode}
    (h : cursor.next = (some opcode, after)) : after.remaining < cursor.remaining := by
  unfold next nth at h
  split at h
  · simp at h
  · obtain ⟨-, rfl⟩ := Prod.mk.injEq .. ▸ h
    simp only [remaining]
    omega

/-- Taking a kind from the back leaves fewer. -/
theorem remaining_of_nextBack {cursor after : Cursor} {opcode : Opcode}
    (h : cursor.nextBack = (some opcode, after)) : after.remaining < cursor.remaining := by
  unfold nextBack at h
  split at h
  · simp at h
  · obtain ⟨-, rfl⟩ := Prod.mk.injEq .. ▸ h
    simp only [remaining]
    omega

/-- The kinds that are left, taken from the front one by one. -/
def rest (cursor : Cursor) : List Opcode :=
  match _taken : cursor.next with
  | (some opcode, after) => opcode :: after.rest
  | (none, _) => []
termination_by cursor.remaining
decreasing_by exact remaining_of_next _taken

/-- The kinds that are left, taken from the back one by one. -/
def restReversed (cursor : Cursor) : List Opcode :=
  match _taken : cursor.nextBack with
  | (some opcode, after) => opcode :: after.restReversed
  | (none, _) => []
termination_by cursor.remaining
decreasing_by exact remaining_of_nextBack _taken

/-! ### Calls -/

/-- A request to a cursor. -/
inductive Call where
  | next
  | nextBack
  | nth (n : Nat)
  | rest
  | restReversed
  deriving DecidableEq

/-- What a cursor answers: one kind if there is one, or all that are left. -/
inductive Answer where
  | one (opcode : Option Opcode)
  | many (opcodes : List Opcode)
  deriving DecidableEq

/-- The answer to a call and the cursor after it. Listing what is left does not move it. -/
def perform (cursor : Cursor) : Call → Answer × Cursor
  | .next => (.one cursor.next.1, cursor.next.2)
  | .nextBack => (.one cursor.nextBack.1, cursor.nextBack.2)
  | .nth n => (.one (cursor.nth n).1, (cursor.nth n).2)
  | .rest => (.many cursor.rest, cursor)
  | .restReversed => (.many cursor.restReversed, cursor)

end Cursor

end Bytecode.Opcode
