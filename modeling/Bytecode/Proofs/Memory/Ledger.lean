import Mathlib.Data.List.DropRight
import Bytecode.Memory.Event
import Bytecode.Proofs.Decimal.Reading
import Bytecode.Proofs.Text.Parts

/-!
# `Bytecode.Proofs.Memory.Ledger`: reading the memory log

The log of a store tells the capacities of its buffers: the capacity of a buffer is the one that it
was given last, and nothing if storage has been released since. `lastGrant` reads a log this way,
and `Accounts` says that what it reads is the capacity that is counted, and that the capacities only
went up on the way. `Accounts.reserved`, `Accounts.other` and `accounts_released` say what one more
entry does to that.

A log is read by its lines, and no two entries have the same one (`MemoryEvent.text_injective`).
-/

set_option autoImplicit false

namespace Bytecode

/-- Under settings that ask for a log every event is logged. -/
theorem Settings.note_of_logging (settings : Settings) (h : settings.logging = true)
    (event : MemoryEvent) : settings.note event = [event] := if_pos h

namespace MemoryEvent

/-- The capacity that the entry gives to a buffer of the kind, if it gives one. -/
def grant? (kind : ElementKind) : MemoryEvent → Option Nat
  | reserved kind' capacity => if kind' = kind then some capacity else none
  | released _ _ => none

/-- The entry tells of a release. -/
def isRelease : MemoryEvent → Bool
  | reserved _ _ => false
  | released _ _ => true

end MemoryEvent

namespace Ledger

/-- The entries of a log after the last release. -/
def sinceRelease (log : List MemoryEvent) : List MemoryEvent :=
  log.rtakeWhile fun event => !event.isRelease

/-- The capacities that buffers of a kind have been given since the last release, in order. -/
def grants (kind : ElementKind) (log : List MemoryEvent) : List Nat :=
  (sinceRelease log).filterMap (MemoryEvent.grant? kind)

/-- The last capacity that a buffer of a kind has been given since the last release, or zero if it
has not been given any. -/
def lastGrant (kind : ElementKind) (log : List MemoryEvent) : Nat :=
  (grants kind log).getLast?.getD 0

/-- The entries for a growth of buffers of some kinds that share a capacity: none if the capacity is
what it was, and otherwise one for each of them, with the capacity that they have now. -/
def growth (kinds : List ElementKind) (before after : Nat) : List MemoryEvent :=
  if after = before then [] else kinds.map (.reserved · after)

/-- Code and lines grow together: a growth of code is followed at once by one of lines to as many
elements, and lines do not grow otherwise. -/
def Paired (log : List MemoryEvent) : Prop :=
  (∀ i n, log[i]? = some (.reserved .byte n) ↔ log[i + 1]? = some (.reserved .line n))
    ∧ ∀ n, log[0]? ≠ some (.reserved .line n)

variable {log : List MemoryEvent} {kind kind' : ElementKind} {capacity n : Nat}

/-- Entries without a growth of code or lines are paired. -/
theorem paired_of_forall
    (h : ∀ event ∈ log, ∀ n, event ≠ .reserved .byte n ∧ event ≠ .reserved .line n) :
    Paired log := by
  have hbyte : ∀ (i n : Nat), log[i]? ≠ some (.reserved .byte n) := by
    intro i n hi
    exact (h _ (List.mem_of_getElem? hi) n).1 rfl
  have hline : ∀ (i n : Nat), log[i]? ≠ some (.reserved .line n) := by
    intro i n hi
    exact (h _ (List.mem_of_getElem? hi) n).2 rfl
  exact ⟨fun i n => iff_of_false (hbyte i n) (hline (i + 1) n), hline 0⟩

/-- The entries for a growth of code and lines are paired. -/
theorem paired_growth (before after : Nat) : Paired (growth [.byte, .line] before after) := by
  unfold growth
  split
  · exact paired_of_forall (by simp)
  · refine ⟨fun i n => ?_, by simp⟩
    -- The first entry and the second are the pair, and there is no third one.
    rcases i with _ | _ | i <;> simp

/-! ### One more entry -/

/-- A capacity that a buffer is given comes after those that it was given before. -/
@[simp] theorem grants_concat_reserved :
    grants kind (log ++ [.reserved kind n]) = grants kind log ++ [n] := by
  simp [grants, sinceRelease, MemoryEvent.isRelease, MemoryEvent.grant?]

/-- What buffers of other kinds are given does not count. -/
theorem grants_concat_other (hne : kind' ≠ kind) :
    grants kind (log ++ [.reserved kind' n]) = grants kind log := by
  simp [grants, sinceRelease, MemoryEvent.isRelease, MemoryEvent.grant?, hne]

/-- After a release nothing has been given. -/
@[simp] theorem grants_concat_released : grants kind (log ++ [.released kind' n]) = [] := by
  simp [grants, sinceRelease, MemoryEvent.isRelease]

/-- The log accounts for a capacity of buffers of a kind: it is the last one that they were given
since the last release, and each one that they were given is greater than the one before. -/
structure Accounts (log : List MemoryEvent) (kind : ElementKind) (capacity : Nat) : Prop where
  last : lastGrant kind log = capacity
  increasing : (grants kind log).IsChain (· < ·)

/-- Nothing has been given to begin with. -/
theorem accounts_nil : Accounts [] kind 0 := ⟨rfl, .nil⟩

/-- After a release nothing has been given. -/
theorem accounts_released : Accounts (log ++ [.released kind' n]) kind 0 where
  last := by simp [lastGrant]
  increasing := by simp

namespace Accounts

/-- A growth to a greater capacity is accounted for by its entry. -/
theorem reserved (accounts : Accounts log kind capacity) (greater : capacity < n) :
    Accounts (log ++ [.reserved kind n]) kind n where
  last := by simp [lastGrant]
  increasing := by
    have hlast : ∀ m ∈ (grants kind log).getLast?, m = capacity := by
      intro m hm
      rw [← accounts.last, lastGrant, Option.mem_def.mp hm, Option.getD_some]
    simp only [grants_concat_reserved, List.isChain_append, accounts.increasing, true_and,
      List.IsChain.singleton, List.head?_cons, Option.mem_some_iff]
    rintro m hm _ rfl
    rw [hlast m hm]
    exact greater

/-- A growth of buffers of another kind changes nothing. -/
theorem other (accounts : Accounts log kind capacity) (hne : kind' ≠ kind) :
    Accounts (log ++ [.reserved kind' n]) kind capacity where
  last := by
    rw [lastGrant, grants_concat_other hne]
    exact accounts.last
  increasing := by
    rw [grants_concat_other hne]
    exact accounts.increasing

end Accounts

end Ledger

/-! ### The lines of the log -/

/-- Kinds have different names. -/
theorem ElementKind.label_injective : Function.Injective label := by
  intro kind kind' h
  cases kind <;> cases kind' <;> first | rfl | exact absurd h (by decide)

/-- There is no blank in the name of a kind. -/
theorem ElementKind.blank_not_mem_label (kind : ElementKind) : ' ' ∉ kind.label := by
  cases kind <;> decide

namespace MemoryEvent

/-- The line of a growth, taken apart at the blank after the name of the kind. -/
theorem text_reserved (kind : ElementKind) (capacity : Nat) :
    text (.reserved kind capacity)
      = "TRACE lox_chunk::memory grow ".toList
        ++ (kind.label ++ ' ' :: ("to ".toList ++ (numeral capacity ++ " elements".toList))) := by
  have hblank : " to ".toList = ' ' :: "to ".toList := by simp
  show "TRACE lox_chunk::memory grow ".toList ++ kind.label ++ " to ".toList ++ numeral capacity
    ++ " elements".toList = _
  rw [hblank]
  simp only [List.append_assoc, List.cons_append]

/-- The line of a release, taken apart at the blank after the number. -/
theorem text_released (kind : ElementKind) (capacity : Nat) :
    text (.released kind capacity)
      = "TRACE lox_chunk::memory free ".toList ++ (numeral capacity ++ ' ' :: kind.label) := by
  have hblank : " ".toList = [' '] := by simp
  show "TRACE lox_chunk::memory free ".toList ++ numeral capacity ++ " ".toList ++ kind.label = _
  rw [hblank]
  simp only [List.append_assoc, List.singleton_append]

/-- No growth has the line of a release. -/
theorem text_reserved_ne_released (kind kind' : ElementKind) (capacity capacity' : Nat) :
    text (.reserved kind capacity) ≠ text (.released kind' capacity') := by
  intro h
  rw [text_reserved, text_released] at h
  have hlength : "TRACE lox_chunk::memory grow ".toList.length
      = "TRACE lox_chunk::memory free ".toList.length := by simp
  have hprefix := List.append_inj_left h hlength
  simp at hprefix

/-- No two entries have the same line in the log. -/
theorem text_injective : Function.Injective text := by
  have hnumeral : ∀ n, ' ' ∉ numeral n := not_mem_numeral rfl
  intro event event' h
  cases event with
  | reserved kind capacity =>
      cases event' with
      | reserved kind' capacity' =>
          rw [text_reserved, text_reserved, List.append_cancel_left_eq,
            separated_inj kind.blank_not_mem_label kind'.blank_not_mem_label,
            List.append_cancel_left_eq, List.append_cancel_right_eq] at h
          rw [ElementKind.label_injective h.1, numeral_injective h.2]
      | released kind' capacity' => exact absurd h (text_reserved_ne_released _ _ _ _)
  | released kind capacity =>
      cases event' with
      | reserved kind' capacity' => exact absurd h.symm (text_reserved_ne_released _ _ _ _)
      | released kind' capacity' =>
          rw [text_released, text_released, List.append_cancel_left_eq,
            separated_inj (hnumeral capacity) (hnumeral capacity')] at h
          rw [ElementKind.label_injective h.2, numeral_injective h.1]

end MemoryEvent

end Bytecode
