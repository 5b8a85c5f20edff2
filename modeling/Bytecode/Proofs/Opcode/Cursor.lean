import Mathlib.Data.List.Perm.Subperm
import Bytecode.Opcode.Cursor

/-!
# `Bytecode.Proofs.Opcode.Cursor`: a cursor is a list that is open at both ends

A cursor keeps two counts and no list. What it stands for is the list of the kinds between the two
counts (`left`), and every call does to the cursor what it would do to this list: a kind is taken
off the front or off the back, or the list is read out. `serve` is the list's side of that.

* `perform_left` is the step, for every cursor. A call that asks for more than is left moves one
  count to the end, whatever the other is. The counts may add up to more than the number of kinds
  after that, and still the list between them is the empty one.
* `replies_left` is the run: the answers and the numbers of kinds that are left after each.
* `taken_subperm` and `pairwise_exhausted` are what lists are known for: no element is taken
  twice, and a list that had nothing to give has nothing to give later.

`answers_as_deque` puts these together.
-/

set_option autoImplicit false

namespace Bytecode.Opcode.Cursor

/-! ### Lists -/

/-- What a list answers to a call, and what is left of it. -/
def serve (kinds : List Opcode) : Call → Answer × List Opcode
  | .next => (.one kinds.head?, kinds.tail)
  | .nextBack => (.one kinds.getLast?, kinds.dropLast)
  | .nth n => (.one (kinds.drop n).head?, (kinds.drop n).tail)
  | .rest => (.many kinds, kinds)
  | .restReversed => (.many kinds.reverse, kinds)

/-- The answers to calls in order, each with the number of kinds that are left after it. -/
def replies {σ : Type} (answer : σ → Call → Answer × σ) (size : σ → Nat) (state : σ) :
    List Call → List (Answer × Nat)
  | [] => []
  | call :: calls =>
      ((answer state call).1, size (answer state call).2)
        :: replies answer size (answer state call).2 calls

/-- The first call is answered, and the others go on from what it left. -/
theorem replies_cons {σ : Type} (answer : σ → Call → Answer × σ) (size : σ → Nat) (state : σ)
    (call : Call) (calls : List Call) :
    replies answer size state (call :: calls)
      = ((answer state call).1, size (answer state call).2)
        :: replies answer size (answer state call).2 calls := rfl

/-- The kind that an answer hands out. A listing hands out none. -/
def Answer.taken? : Answer → Option Opcode
  | one opcode => opcode
  | many _ => none

/-- The kinds that were handed out, in order. -/
def taken (replies : List (Answer × Nat)) : List Opcode :=
  replies.filterMap fun reply => reply.1.taken?

/-- There was nothing to answer with. -/
def Answer.Exhausted (answer : Answer) : Prop := answer = .one none ∨ answer = .many []

/-- What a call hands out and what it leaves are parts of the list. -/
theorem serve_subperm (kinds : List Opcode) (call : Call) :
    List.Subperm ((serve kinds call).1.taken?.toList ++ (serve kinds call).2) kinds := by
  have hfront : ∀ kinds : List Opcode, kinds.head?.toList ++ kinds.tail = kinds := by
    intro kinds
    cases kinds <;> rfl
  cases call with
  | next =>
      show List.Subperm (kinds.head?.toList ++ kinds.tail) kinds
      rw [hfront]
  | nth n =>
      show List.Subperm ((kinds.drop n).head?.toList ++ (kinds.drop n).tail) kinds
      rw [hfront]
      exact (List.drop_sublist n kinds).subperm
  | nextBack =>
      show List.Subperm (kinds.getLast?.toList ++ kinds.dropLast) kinds
      refine List.perm_append_comm.subperm.trans ?_
      cases hlast : kinds.getLast? with
      | none =>
          rw [List.getLast?_eq_none_iff.mp hlast]
          exact List.nil_subperm
      | some last =>
          rw [Option.toList_some, List.dropLast_append_getLast? last hlast]
  | rest => exact List.Subperm.refl kinds
  | restReversed => exact List.Subperm.refl kinds

/-- The kinds that a run hands out are in the list that it began with, each as often as there at
most. -/
theorem taken_subperm (kinds : List Opcode) (calls : List Call) :
    List.Subperm (taken (replies serve List.length kinds calls)) kinds := by
  induction calls generalizing kinds with
  | nil => exact List.nil_subperm
  | cons call calls ih =>
      have htaken : taken (replies serve List.length kinds (call :: calls))
          = (serve kinds call).1.taken?.toList
            ++ taken (replies serve List.length (serve kinds call).2 calls) := by
        rw [replies_cons]
        unfold taken
        cases h : (serve kinds call).1.taken? <;> simp [h]
      rw [htaken]
      -- The later kinds come from what the first call has left.
      exact ((List.subperm_append_left _).mpr (ih _)).trans (serve_subperm kinds call)

/-- Where a call to hand out a kind gets none, nothing is left. -/
theorem serve_eq_nil_of_none {kinds : List Opcode} {call : Call}
    (h : (serve kinds call).1 = .one none) : (serve kinds call).2 = [] := by
  cases call with
  | next =>
      have hnil : kinds = [] := List.head?_eq_none_iff.mp (Answer.one.inj h)
      exact congrArg List.tail hnil
  | nextBack =>
      have hnil : kinds = [] := List.getLast?_eq_none_iff.mp (Answer.one.inj h)
      exact congrArg List.dropLast hnil
  | nth n =>
      have hnil : kinds.drop n = [] := List.head?_eq_none_iff.mp (Answer.one.inj h)
      exact congrArg List.tail hnil
  | rest => nomatch h
  | restReversed => nomatch h

/-- The empty list has nothing to answer with, and stays empty. -/
theorem serve_nil (call : Call) : (serve [] call).1.Exhausted ∧ (serve [] call).2 = [] := by
  cases call with
  | next | nextBack => exact ⟨.inl rfl, rfl⟩
  | nth n =>
      have hnil : ([] : List Opcode).drop n = [] := List.drop_nil
      show Answer.Exhausted (.one (([] : List Opcode).drop n).head?)
        ∧ (([] : List Opcode).drop n).tail = []
      rw [hnil]
      exact ⟨.inl rfl, rfl⟩
  | rest | restReversed => exact ⟨.inr rfl, rfl⟩

/-- All replies of the empty list are exhausted. -/
theorem exhausted_of_nil (calls : List Call) :
    ∀ reply ∈ replies serve List.length [] calls, reply.1.Exhausted := by
  induction calls with
  | nil => exact nofun
  | cons call calls ih =>
      obtain ⟨hanswer, hleft⟩ := serve_nil call
      rw [replies_cons, hleft, List.forall_mem_cons]
      exact ⟨hanswer, ih⟩

/-- After a call has got none, all replies are exhausted. -/
theorem pairwise_exhausted (kinds : List Opcode) (calls : List Call) :
    (replies serve List.length kinds calls).Pairwise
      fun earlier later => earlier.1 = .one none → later.1.Exhausted := by
  induction calls generalizing kinds with
  | nil => exact .nil
  | cons call calls ih =>
      refine .cons (fun later hlater hnone => ?_) (ih _)
      rw [serve_eq_nil_of_none hnone] at hlater
      exact exhausted_of_nil calls later hlater

/-! ### Cursors -/

/-- The kinds that are left to a cursor, in their order. -/
def left (cursor : Cursor) : List Opcode := (all.drop cursor.front).take cursor.remaining

variable (cursor : Cursor)

/-- There are as many as the cursor counts. -/
theorem length_left : cursor.left.length = cursor.remaining := by
  have hcount : all.length = count := rfl
  unfold left remaining
  rw [List.length_take, List.length_drop, hcount]
  omega

/-- Where nothing remains by count, nothing is left. -/
theorem left_eq_nil {cursor : Cursor} (h : cursor.remaining = 0) : cursor.left = [] :=
  List.eq_nil_of_length_eq_zero (cursor.length_left.trans h)

/-- Skipping kinds and taking one is skipping and taking in the list. -/
theorem nth_left (n : Nat) :
    (cursor.nth n).1 = (cursor.left.drop n).head?
      ∧ (cursor.nth n).2.left = (cursor.left.drop n).tail := by
  unfold nth
  by_cases hpast : count < cursor.front + n + 1 + cursor.back
  · -- At most `n` kinds are left, so that nothing is to be had beyond them.
    have hdrop : cursor.left.drop n = [] := by
      rw [List.drop_eq_nil_iff, length_left]
      unfold remaining
      omega
    have hend : Cursor.left { cursor with front := count } = [] := by
      apply left_eq_nil
      simp only [remaining]
      omega
    rw [if_pos hpast, hdrop]
    exact ⟨rfl, hend⟩
  · have hlt : n < cursor.remaining := by
      unfold remaining
      omega
    rw [if_neg hpast, List.head?_drop, List.tail_drop]
    unfold left
    refine ⟨?_, ?_⟩
    · rw [List.getElem?_take_of_lt hlt, List.getElem?_drop]
    · rw [List.drop_take, List.drop_drop]
      simp only [remaining]
      congr 1
      omega

/-- Taking the last kind is taking it off the list. -/
theorem nextBack_left :
    cursor.nextBack.1 = cursor.left.getLast? ∧ cursor.nextBack.2.left = cursor.left.dropLast := by
  unfold nextBack
  by_cases hpast : count < cursor.front + cursor.back + 1
  · -- Nothing is left, and nothing is after the count has gone to the end.
    have hnil : cursor.left = [] := by
      apply left_eq_nil
      unfold remaining
      omega
    have hend : Cursor.left { cursor with back := count } = [] := by
      apply left_eq_nil
      simp only [remaining]
      omega
    rw [if_pos hpast, hnil]
    exact ⟨rfl, hend⟩
  · have hlast : cursor.front + (cursor.remaining - 1) = count - (cursor.back + 1) := by
      unfold remaining
      omega
    rw [if_neg hpast, List.getLast?_eq_getElem?, List.dropLast_eq_take, length_left]
    unfold left
    refine ⟨?_, ?_⟩
    · rw [List.getElem?_take_of_lt (by unfold remaining; omega), List.getElem?_drop, hlast]
    · rw [List.take_take]
      simp only [remaining]
      congr 1
      omega

/-- Listing from the front gives the list. -/
theorem rest_eq_left : cursor.rest = cursor.left := by
  fun_induction rest cursor with
  | case1 cursor opcode after htaken ih =>
      obtain ⟨hfirst, hleft⟩ := cursor.nth_left 0
      have hnext : cursor.nth 0 = (some opcode, after) := htaken
      rw [hnext, List.drop_zero] at hfirst hleft
      rw [ih, hleft]
      exact List.cons_head?_tail hfirst.symm
  | case2 cursor after htaken =>
      have hfirst := (cursor.nth_left 0).1
      have hnext : cursor.nth 0 = (none, after) := htaken
      rw [hnext, List.drop_zero] at hfirst
      exact (List.head?_eq_none_iff.mp hfirst.symm).symm

/-- Listing from the back gives the reversed list. -/
theorem restReversed_eq_left : cursor.restReversed = cursor.left.reverse := by
  fun_induction restReversed cursor with
  | case1 cursor opcode after htaken ih =>
      obtain ⟨hlast, hleft⟩ := cursor.nextBack_left
      rw [htaken] at hlast hleft
      rw [ih, hleft, ← List.reverse_concat', List.dropLast_append_getLast? opcode hlast.symm]
  | case2 cursor after htaken =>
      have hlast := cursor.nextBack_left.1
      rw [htaken] at hlast
      rw [List.getLast?_eq_none_iff.mp hlast.symm]
      rfl

/-- Every call does to a cursor what it does to the list that is left to it. -/
theorem perform_left (call : Call) :
    ((cursor.perform call).1, (cursor.perform call).2.left) = serve cursor.left call := by
  cases call with
  | next =>
      obtain ⟨hfirst, hleft⟩ := cursor.nth_left 0
      rw [List.drop_zero] at hfirst hleft
      exact Prod.ext (congrArg Answer.one hfirst) hleft
  | nth n =>
      obtain ⟨hfirst, hleft⟩ := cursor.nth_left n
      exact Prod.ext (congrArg Answer.one hfirst) hleft
  | nextBack =>
      obtain ⟨hlast, hleft⟩ := cursor.nextBack_left
      exact Prod.ext (congrArg Answer.one hlast) hleft
  | rest => exact Prod.ext (congrArg Answer.many cursor.rest_eq_left) rfl
  | restReversed => exact Prod.ext (congrArg Answer.many cursor.restReversed_eq_left) rfl

/-- The replies of a cursor are those of the list that is left to it. -/
theorem replies_left (calls : List Call) :
    replies perform remaining cursor calls = replies serve List.length cursor.left calls := by
  induction calls generalizing cursor with
  | nil => rfl
  | cons call calls ih =>
      rw [replies_cons, replies_cons, ← perform_left, ih, length_left]

/-- A cursor over all kinds answers every run of calls as the list of all kinds does, taken from at
both ends, and always counts as many kinds as are left of that list. So it hands out no kind twice,
and once it has had none to hand out, it has none for any later call. -/
theorem answers_as_deque (calls : List Call) :
    replies perform remaining {} calls = replies serve List.length [.constant, .ret] calls
      ∧ (taken (replies perform remaining {} calls)).Nodup
      ∧ (replies perform remaining {} calls).Pairwise
          fun earlier later => earlier.1 = .one none → later.1.Exhausted := by
  have hreplies : replies perform remaining {} calls
      = replies serve List.length [.constant, .ret] calls := replies_left {} calls
  refine ⟨hreplies, ?_, ?_⟩
  · rw [hreplies]
    obtain ⟨kinds, hperm, hsublist⟩ := taken_subperm [.constant, .ret] calls
    exact hperm.nodup_iff.mp (hsublist.nodup (by decide))
  · rw [hreplies]
    exact pairwise_exhausted [.constant, .ret] calls

/-- After the last kind has been taken off the back, a skip overshoots: the counts add up to more
than the number of kinds, and nothing is left. -/
example :
    replies perform remaining {} [.nextBack, .nth 5, .nextBack, .next, .rest]
      = [(.one (some .ret), 1), (.one none, 0), (.one none, 0), (.one none, 0), (.many [], 0)] := by
  decide +kernel

end Bytecode.Opcode.Cursor
