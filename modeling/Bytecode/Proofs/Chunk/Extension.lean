import Bytecode.Proofs.Chunk.Walk

/-!
# `Bytecode.Proofs.Chunk.Extension`: appending leaves what was listed

A chunk that is added to keeps what it had: its bytes, their lines and its constants stay where they
are, and more comes after them. A walk of the longer chunk reads the same bytes again, so it can
differ only where the shorter chunk had nothing to read.

* `accepted_append`: between two releases the accepted commands of a longer run begin with those of
  the shorter one, so what the longer run has written and pooled begins with what the shorter one
  has (`represents_append`).
* `entryAt_extended` is the step. An entry that was read is read again, and so is a byte that is
  the code of nothing. Only a fault that names a length can be mended by appending.
* `Listing.followedBy` goes on with a second listing where the first ended without a fault, and
  `walk_extended` is the induction, along the walk of the shorter chunk: it ends just where that
  chunk ends, and never inside an instruction (`next_le_size`).
-/

set_option autoImplicit false

namespace Bytecode.Chunk

open Instruction

/-! ### What a longer run holds -/

/-- Without a release in between, the accepted commands of a longer run begin with those of the
shorter one. -/
theorem accepted_append (settings : Settings) (commands more : List Command)
    (hmore : ∀ command ∈ more, command ≠ .release) :
    ∃ entries, accepted (history settings (commands ++ more))
      = accepted (history settings commands) ++ entries := by
  induction more using List.reverseRecOn with
  | nil => exact ⟨[], by simp⟩
  | append_singleton more command ih =>
      obtain ⟨entries, hentries⟩ := ih fun command' h => hmore command' (by simp [h])
      have hrelease : command ≠ .release := hmore command (by simp)
      have hhistory : history settings (commands ++ more ++ [command])
          = history settings (commands ++ more)
            ++ [(command, (reached settings (commands ++ more)).perform settings command)] :=
        Outcome.history_concat (perform settings) .empty (commands ++ more) command
      rw [← List.append_assoc, hhistory, accepted_concat _ _ _ hrelease, hentries,
        List.append_assoc]
      exact ⟨_, rfl⟩

/-- The chunk of a longer run stands for two longer lists. -/
theorem represents_append (settings : Settings) (commands more : List Command)
    (hmore : ∀ command ∈ more, command ≠ .release) :
    ∃ bytes values bytes' values',
      (reached settings commands).Represents bytes values
      ∧ (reached settings (commands ++ more)).Represents (bytes ++ bytes') (values ++ values') := by
  obtain ⟨entries, hentries⟩ := accepted_append settings commands more hmore
  have hlonger := (shows_reached settings (commands ++ more)).holds.represents
  unfold written pooled at hlonger
  rw [hentries, List.filterMap_append, List.filterMap_append] at hlonger
  exact ⟨_, _, _, _, (shows_reached settings commands).holds.represents, hlonger⟩

/-! ### Walks of both -/

/-- The listing, and where it ended without a fault another one after it. -/
def Listing.followedBy (listing rest : Listing) : Listing :=
  match listing.fault with
  | none => ⟨listing.entries ++ rest.entries, rest.fault⟩
  | some _ => listing

/-- An entry before a listing stays before it when the listing goes on. -/
theorem Listing.followedBy_prepend (entry : Entry) (listing rest : Listing) :
    (listing.prepend entry).followedBy rest = (listing.followedBy rest).prepend entry := by
  obtain ⟨entries, fault⟩ := listing
  cases fault <;> rfl

section Extended

variable {chunk longer : Chunk} {bytes bytes' : List (UInt8 × UInt32)}
  {values values' : List Value} {offset : Nat}

/-- The operand of a load is found again after more has been appended, unless a length was in the
way. -/
theorem operandAt_extended (represents : chunk.Represents bytes values)
    (represents' : longer.Represents (bytes ++ bytes') (values ++ values'))
    (hfault : ∀ index length,
      chunk.operandAt offset .constant ≠ .error (.indexOutOfRange index length)) :
    longer.operandAt offset .constant = chunk.operandAt offset .constant := by
  rw [operandAt_constant represents] at hfault ⊢
  rw [operandAt_constant represents']
  cases hnext : bytes[offset + 1]? with
  | none => simp [hnext] at hfault
  | some pair =>
      obtain ⟨index, line⟩ := pair
      have hlt : offset + 1 < bytes.length := (List.getElem?_eq_some_iff.mp hnext).1
      cases hvalue : values[index.toNat]? with
      | none => simp [hnext, hvalue] at hfault
      | some value =>
          have hlt' : index.toNat < values.length := (List.getElem?_eq_some_iff.mp hvalue).1
          simp only [List.getElem?_append_left hlt, List.getElem?_append_left hlt', hnext, hvalue]

/-- What is read at an offset is read there again after more has been appended, unless it was a
fault that names a length. -/
theorem entryAt_extended (represents : chunk.Represents bytes values)
    (represents' : longer.Represents (bytes ++ bytes') (values ++ values'))
    (h : offset < chunk.size)
    (hfault : ∀ index length, chunk.entryAt offset ≠ .error (.indexOutOfRange index length)) :
    longer.entryAt offset = chunk.entryAt offset := by
  rw [represents.size.1] at h
  rcases hpair : bytes[offset] with ⟨byte, line⟩
  have hget : bytes[offset]? = some (byte, line) := by
    rw [List.getElem?_eq_getElem h, hpair]
  have hget' : (bytes ++ bytes')[offset]? = some (byte, line) := by
    rw [List.getElem?_append_left h, hget]
  rw [entryAt_eq represents hget] at hfault ⊢
  rw [entryAt_eq represents' hget']
  by_cases hzero : byte = 0
  · -- Only a load reads on, and a fault of its operand would be the fault of the entry.
    have hoperand : ∀ index length,
        chunk.operandAt offset .constant ≠ .error (.indexOutOfRange index length) := by
      intro index length herror
      apply hfault index length
      rw [if_pos hzero, herror]
      rfl
    rw [operandAt_extended represents represents' hoperand]
  · rw [if_neg hzero, if_neg hzero]

/-- An instruction that was read ends within the code. -/
theorem next_le_size (represents : chunk.Represents bytes values) (h : offset < chunk.size)
    {entry : Entry} (hentry : chunk.entryAt offset = .ok entry) :
    offset + 1 + entry.opcode.operandCount ≤ chunk.size := by
  rcases entryAt_cases represents h with
    ⟨instruction, entry', rest, hdrop, -, hentry', hdescribes⟩ | ⟨fault, herror, -⟩
  · obtain rfl : entry' = entry := Except.ok.inj (hentry'.symm.trans hentry)
    have hlength := congrArg List.length hdrop
    rw [List.length_drop, List.length_append, length_encode, Array.length_toList,
      ← hdescribes.opcode] at hlength
    have hsize : chunk.code.items.size = chunk.size := rfl
    omega
  · rw [herror] at hentry
    nomatch hentry

/-- The walk of a chunk that has been added to lists what was listed before. If that ended without
a fault, it goes on at the old end. -/
theorem walk_extended (represents : chunk.Represents bytes values)
    (represents' : longer.Represents (bytes ++ bytes') (values ++ values'))
    (hoffset : offset ≤ chunk.size)
    (hfault : ∀ index length, (chunk.walk offset).fault ≠ some (.indexOutOfRange index length)) :
    longer.walk offset = (chunk.walk offset).followedBy (longer.walk chunk.size) := by
  have hsize : chunk.size ≤ longer.size := by
    rw [represents.size.1, represents'.size.1, List.length_append]
    omega
  fun_induction chunk.walk offset with
  | case1 offset h entry hentry ih =>
      -- The entry is read in both chunks, and the rest of both walks begins at the same offset.
      have hread : longer.entryAt offset = .ok entry := by
        rw [← hentry]
        refine entryAt_extended represents represents' h ?_
        intro index length
        simp [hentry]
      rw [walk, if_pos (Nat.lt_of_lt_of_le h hsize), hread, Listing.followedBy_prepend,
        ← ih (next_le_size represents h hentry) hfault]
  | case2 offset h fault hentry =>
      -- The fault is one that appending does not mend, so the walk of the longer chunk has it too.
      have hread : longer.entryAt offset = .error fault := by
        rw [← hentry]
        refine entryAt_extended represents represents' h ?_
        intro index length hlength
        rw [hentry] at hlength
        exact hfault index length (congrArg some (Except.error.inj hlength))
      rw [walk, if_pos (Nat.lt_of_lt_of_le h hsize), hread]
      rfl
  | case3 offset h =>
      -- The shorter chunk has come to its end, where the longer one goes on.
      obtain rfl : offset = chunk.size := Nat.le_antisymm hoffset (Nat.not_lt.mp h)
      rfl

end Extended

/-- Appending does not change what has been listed. Take any chunk that a run reaches, any further
commands without a release among them, and any offset up to the end of the chunk. If the walk of the
chunk from the offset on ended without a fault, then the walk of the longer chunk lists the same
entries, and after them what a walk from the old end on lists. If it ended at a byte that is the
code of nothing, then the walk of the longer chunk is the same, its fault included. -/
theorem walk_append (settings : Settings) (commands more : List Command)
    (hmore : ∀ command ∈ more, command ≠ .release) (offset : Nat)
    (hoffset : offset ≤ (reached settings commands).size) :
    let chunk := reached settings commands
    let longer := Outcome.stateAfter (perform settings) chunk more
    ((chunk.walk offset).fault = none →
      longer.walk offset
        = ⟨(chunk.walk offset).entries ++ (longer.walk chunk.size).entries,
            (longer.walk chunk.size).fault⟩)
    ∧ ∀ byte place, (chunk.walk offset).fault = some (.unknownOpcode byte place) →
        longer.walk offset = chunk.walk offset := by
  intro chunk longer
  obtain ⟨bytes, values, bytes', values', represents, represents'⟩ :=
    represents_append settings commands more hmore
  have hlonger : reached settings (commands ++ more) = longer :=
    Outcome.stateAfter_append (perform settings) .empty commands more
  rw [hlonger] at represents'
  constructor
  · intro hnone
    rw [walk_extended represents represents' hoffset (by rw [hnone]; exact nofun)]
    unfold Listing.followedBy
    rw [hnone]
  · intro byte place hunknown
    rw [walk_extended represents represents' hoffset (by rw [hunknown]; exact nofun)]
    unfold Listing.followedBy
    rw [hunknown]

/-- Two bytes, the first of which is the code of nothing and the second that of a return, and after
them the first byte of a load. The walk from the second byte on gets to the load and its missing
operand, and the walk from the first byte on stays where it was. -/
theorem walk_append_cut_load :
    let chunk := reached {} [.push 9 1, .pushOpcode .ret 2]
    let longer := Outcome.stateAfter (perform {}) chunk [.pushConstant .nil, .push 0 3]
    (chunk.walk 1).fault = none
    ∧ longer.walk 1
        = ⟨(chunk.walk 1).entries ++ (longer.walk chunk.size).entries,
            (longer.walk chunk.size).fault⟩
    ∧ (longer.walk 1).fault = some (.indexOutOfRange 3 3)
    ∧ (chunk.walk 0).fault = some (.unknownOpcode 9 0)
    ∧ longer.walk 0 = chunk.walk 0 := by
  intro chunk longer
  have hmore : ∀ command ∈ [Command.pushConstant .nil, .push 0 3], command ≠ .release := by decide
  have hclean : (chunk.walk 1).fault = none := by decide +kernel
  have hunknown : (chunk.walk 0).fault = some (.unknownOpcode 9 0) := by decide +kernel
  have hcut : (longer.walk 1).fault = some (.indexOutOfRange 3 3) := by decide +kernel
  have hgoes := (walk_append {} [.push 9 1, .pushOpcode .ret 2] _ hmore 1 (by decide +kernel)).1
  have hstays := (walk_append {} [.push 9 1, .pushOpcode .ret 2] _ hmore 0 (by decide +kernel)).2
  exact ⟨hclean, hgoes hclean, hcut, hunknown, hstays 9 0 hunknown⟩

end Bytecode.Chunk
