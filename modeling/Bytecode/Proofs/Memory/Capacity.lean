import Mathlib.Algebra.Order.Ring.Nat
import Mathlib.Data.Nat.Find
import Mathlib.Order.Bounds.Basic
import Bytecode.Proofs.Memory.Room

/-!
# `Bytecode.Proofs.Memory.Capacity`: the capacity at a length

A store that starts empty and grows only when it is full passes through the same capacities
every time, so its capacity can be told from its length. `Growth.capacityFor` is that number: no
capacity for no elements, and otherwise the least capacity on the policy's way up that covers
the length.

* `isLeast_capacityFor` spells the doubling policy out: the least of the numbers `8 * 2 ^ k`
  that is not below the length.
* `capacityFor_succ_of_lt` and `next_of_full` are the two steps of a store: as long as there is
  room the capacity for one more element is the same, and a full store goes to just the capacity
  for one more element, unless that is no machine word.
* `Governs.room` joins the two. Whatever a store did before, its next element is either
  refused or stored under the capacity for one more element.
* `capacityFor_succ_ne_iff` lists the lengths at which the next element needs a growth.
-/

set_option autoImplicit false

namespace Bytecode.Growth

/-- Doubling the least capacity reaches every length. -/
theorem exists_le_doubled (n : Nat) : ∃ k, n ≤ 8 * 2 ^ k :=
  ⟨n, by have := Nat.lt_two_pow_self (n := n); omega⟩

/-- The capacity of a store of `n` elements that has only grown when it was full: under doubling
`8 * 2 ^ k` for the least `k` that covers them, and stepwise one place for each element and eight
at least. A store without elements has not grown yet. -/
def capacityFor (growth : Growth) (n : Nat) : Nat :=
  if n = 0 then 0
  else match growth with
    | doubling => 8 * 2 ^ Nat.find (exists_le_doubled n)
    | stepwise => max 8 n

/-- A length at which a store is full, so that the next element needs a growth. -/
def IsThreshold (n : Nat) : Growth → Prop
  | doubling => n = 0 ∨ ∃ k, n = 8 * 2 ^ k
  | stepwise => n = 0 ∨ 8 ≤ n

variable {n : Nat}

/-- Under doubling the capacity for some elements is the least of the numbers `8 * 2 ^ k` that
covers them. -/
theorem isLeast_capacityFor (h : n ≠ 0) :
    IsLeast {m | n ≤ m ∧ ∃ k, m = 8 * 2 ^ k} (doubling.capacityFor n) := by
  have heq : doubling.capacityFor n = 8 * 2 ^ Nat.find (exists_le_doubled n) := if_neg h
  rw [heq]
  refine ⟨⟨Nat.find_spec (exists_le_doubled n), _, rfl⟩, ?_⟩
  rintro m ⟨hle, k, rfl⟩
  have hmin : Nat.find (exists_le_doubled n) ≤ k := Nat.find_min' _ hle
  exact Nat.mul_le_mul_left 8 (Nat.pow_le_pow_right (by decide) hmin)

/-- Stepwise the capacity for some elements is their number, and eight at least. -/
theorem capacityFor_stepwise (h : n ≠ 0) : stepwise.capacityFor n = max 8 n := if_neg h

variable (growth : Growth)

/-- There is room for as many elements as the capacity is for. -/
theorem le_capacityFor (n : Nat) : n ≤ growth.capacityFor n := by
  by_cases h : n = 0
  · rw [h]
    exact Nat.zero_le _
  · cases growth with
    | doubling => exact (isLeast_capacityFor h).1.1
    | stepwise =>
        rw [capacityFor_stepwise h]
        exact Nat.le_max_right 8 n

/-! ### The steps of a store -/

/-- As long as there is room, one more element has the same capacity. -/
theorem capacityFor_succ_of_lt (h : n < growth.capacityFor n) :
    growth.capacityFor (n + 1) = growth.capacityFor n := by
  have hne : n ≠ 0 := by
    rintro rfl
    exact Nat.lt_irrefl 0 h
  cases growth with
  | doubling =>
      -- The least capacity that covers `n` elements covers one more, and none below it does.
      have hleast := isLeast_capacityFor hne
      refine (isLeast_capacityFor (Nat.succ_ne_zero n)).unique ⟨⟨h, hleast.1.2⟩, ?_⟩
      rintro m ⟨hle, hm⟩
      exact hleast.2 ⟨Nat.le_of_succ_le hle, hm⟩
  | stepwise =>
      rw [capacityFor_stepwise hne] at h ⊢
      rw [capacityFor_stepwise (Nat.succ_ne_zero n)]
      omega

/-- A store is full at the thresholds of its policy. -/
theorem capacityFor_eq_self_iff : growth.capacityFor n = n ↔ growth.IsThreshold n := by
  by_cases h : n = 0
  · subst h
    cases growth <;> exact ⟨fun _ => .inl rfl, fun _ => rfl⟩
  · cases growth with
    | doubling =>
        have hleast := isLeast_capacityFor h
        constructor
        · intro heq
          obtain ⟨k, hk⟩ := hleast.1.2
          exact .inr ⟨k, heq.symm.trans hk⟩
        · rintro (hzero | hk)
          · exact absurd hzero h
          · exact Nat.le_antisymm (hleast.2 ⟨Nat.le_refl n, hk⟩) hleast.1.1
    | stepwise =>
        have hthreshold : stepwise.IsThreshold n ↔ n = 0 ∨ 8 ≤ n := Iff.rfl
        rw [capacityFor_stepwise h, hthreshold]
        omega

/-- The capacity for one more element is another one exactly at the thresholds. -/
theorem capacityFor_succ_ne_iff :
    growth.capacityFor (n + 1) ≠ growth.capacityFor n ↔ growth.IsThreshold n := by
  rw [← capacityFor_eq_self_iff]
  have hle := growth.le_capacityFor n
  have hsucc := growth.le_capacityFor (n + 1)
  constructor
  · intro hne
    by_contra hlt
    exact hne (growth.capacityFor_succ_of_lt (by omega))
  · omega

/-- The first growth is to eight. -/
theorem capacityFor_one : growth.capacityFor 1 = 8 := by
  cases growth with
  | doubling =>
      refine (isLeast_capacityFor (by decide)).unique ⟨⟨by decide, 0, rfl⟩, ?_⟩
      rintro m ⟨-, k, rfl⟩
      have := Nat.two_pow_pos k
      omega
  | stepwise => rfl

/-- After the number `8 * 2 ^ k` the next of its kind is twice that, and nothing lies between. -/
theorem capacityFor_doubled (k : Nat) :
    doubling.capacityFor (8 * 2 ^ k + 1) = 8 * 2 ^ (k + 1) := by
  refine (isLeast_capacityFor (Nat.succ_ne_zero _)).unique ⟨⟨?_, k + 1, rfl⟩, ?_⟩
  · have := Nat.two_pow_pos k
    rw [Nat.pow_succ]
    omega
  · rintro m ⟨hle, j, rfl⟩
    have hlt : k < j := by
      by_contra hge
      have hpow : 2 ^ j ≤ 2 ^ k := Nat.pow_le_pow_right (by decide) (by omega)
      omega
    exact Nat.mul_le_mul_left 8 (Nat.pow_le_pow_right (by decide) hlt)

/-- A store that is full at eight elements or more raises its capacity to that for one more. -/
theorem capacityFor_succ_of_full (full : growth.capacityFor n = n) (large : 8 ≤ n) :
    growth.capacityFor (n + 1) = growth.raise n := by
  cases growth with
  | doubling =>
      rcases (doubling.capacityFor_eq_self_iff).mp full with hzero | ⟨k, rfl⟩
      · omega
      · rw [capacityFor_doubled]
        show 8 * 2 ^ (k + 1) = 2 * (8 * 2 ^ k)
        rw [Nat.pow_succ]
        omega
  | stepwise =>
      rw [capacityFor_stepwise (Nat.succ_ne_zero n)]
      exact Nat.max_eq_right (by omega)

/-- From a full store the policy goes to the capacity for one more element, unless that is no
machine word. -/
theorem next_of_full (full : growth.capacityFor n = n) :
    growth.next n
      = if growth.capacityFor (n + 1) ≤ maxWord then .ok (growth.capacityFor (n + 1))
        else .error (.outOfMemory maxWord) := by
  unfold next
  show (if n < 8 then _ else _) = _
  by_cases hsmall : n < 8
  · -- Below eight only the empty store is full.
    have hzero : n = 0 := by
      have hthreshold := growth.capacityFor_eq_self_iff.mp full
      cases growth with
      | doubling =>
          rcases hthreshold with hzero | ⟨k, hk⟩
          · exact hzero
          · have := Nat.two_pow_pos k
            omega
      | stepwise =>
          have : n = 0 ∨ 8 ≤ n := hthreshold
          omega
    subst hzero
    rw [if_pos hsmall, capacityFor_one, if_pos (by decide)]
    rfl
  · rw [if_neg hsmall, growth.capacityFor_succ_of_full full (by omega)]

/-- The store has the capacity for its length. -/
def Governs (growth : Growth) (extent : Extent) : Prop :=
  extent.capacity = growth.capacityFor extent.length

/-- A store with the capacity for its length, once there is room for one more element, has the
capacity for that. -/
theorem Governs.room {heap : Heap} {kind : ElementKind} {growth : Growth} {extent : Extent}
    {capacity : Nat} (governs : growth.Governs extent)
    (h : growth.room heap kind extent = .ok capacity) :
    capacity = growth.capacityFor (extent.length + 1) := by
  obtain ⟨n, _⟩ := extent
  obtain rfl : _ = growth.capacityFor n := governs
  unfold Growth.room at h
  rcases Nat.lt_or_eq_of_le (growth.le_capacityFor n) with hlt | hfull
  · rw [if_neg (Nat.ne_of_lt hlt)] at h
    rw [growth.capacityFor_succ_of_lt hlt]
    exact (Except.ok.inj h).symm
  · rw [if_pos hfull, ← hfull] at h
    unfold grant at h
    rw [growth.next_of_full hfull.symm] at h
    by_cases hword : growth.capacityFor (n + 1) ≤ maxWord
    · rw [if_pos hword] at h
      dsimp only at h
      split at h
      · exact (Except.ok.inj h).symm
      · nomatch h
    · rw [if_neg hword] at h
      nomatch h

/-- How full a store with the capacity for its length is after an append with the given result: it
has one element more and the capacity for it, or has been left as it was. -/
def extentAfter {α : Type} (growth : Growth) (extent : Extent) : Except Fault α → Extent
  | .ok _ => ⟨extent.length + 1, growth.capacityFor (extent.length + 1)⟩
  | .error _ => extent

/-- An append leaves a store with the capacity for its length. -/
theorem Governs.extentAfter {α : Type} {growth : Growth} {extent : Extent}
    (governs : growth.Governs extent) (result : Except Fault α) :
    growth.Governs (growth.extentAfter extent result) := by
  cases result with
  | ok answer => exact rfl
  | error fault => exact governs

/-- An append moves the capacity exactly if it is accepted and the length is a threshold. -/
theorem Governs.moves_iff {α : Type} {growth : Growth} {extent : Extent}
    (governs : growth.Governs extent) (result : Except Fault α) :
    (growth.extentAfter extent result).capacity ≠ extent.capacity
      ↔ (∃ answer, result = .ok answer) ∧ growth.IsThreshold extent.length := by
  have hcapacity : extent.capacity = growth.capacityFor extent.length := governs
  cases result with
  | ok answer =>
      rw [hcapacity, ← growth.capacityFor_succ_ne_iff]
      simp [Growth.extentAfter]
  | error fault => simp [Growth.extentAfter]

/-- Memory for the capacity for one more element is all that it takes to make room for it. -/
theorem Governs.room_of_fits {heap : Heap} {kind : ElementKind} {growth : Growth} {extent : Extent}
    (governs : growth.Governs extent)
    (hword : growth.capacityFor (extent.length + 1) ≤ maxWord)
    (hfits : growth.capacityFor (extent.length + 1) * kind.bytes ≤ heap.limit) :
    growth.room heap kind extent = .ok (growth.capacityFor (extent.length + 1)) := by
  obtain ⟨n, _⟩ := extent
  obtain rfl : _ = growth.capacityFor n := governs
  unfold Growth.room
  rcases Nat.lt_or_eq_of_le (growth.le_capacityFor n) with hlt | hfull
  · rw [if_neg (Nat.ne_of_lt hlt), growth.capacityFor_succ_of_lt hlt]
  · rw [if_pos hfull, ← hfull]
    unfold grant
    rw [growth.next_of_full hfull.symm, if_pos hword]
    exact if_pos hfits

/-- The capacity for one more element is no smaller. -/
theorem capacityFor_le_succ (n : Nat) : growth.capacityFor n ≤ growth.capacityFor (n + 1) := by
  rcases Nat.lt_or_eq_of_le (growth.le_capacityFor n) with hlt | hfull
  · rw [growth.capacityFor_succ_of_lt hlt]
  · rw [← hfull]
    exact Nat.le_trans (Nat.le_succ n) (growth.le_capacityFor (n + 1))

end Bytecode.Growth
