import Bytecode.Chunk.Assembly
import Bytecode.Proofs.Chunk.Walk

/-!
# `Bytecode.Proofs.Chunk.Assembly`: a walk lists what was assembled

An assembler writes instructions of one and two bytes, and takes the operands from the pool as
it fills it. A walk reads the bytes back. The two agree on where every instruction stands,
whatever has grown in between, because both can be told from the program alone:

* `turns` gives each statement the number of constants that the pool holds when its turn comes,
  which is the index that its own constant gets.
* `emitted` is what a program comes to in instructions with their lines, and `bytesOf` spells
  these out, a line for each byte.
* `emit_filled` is the step and `assemble_filled` the run: the chunk holds these bytes and
  nothing else.
* `Filled.walk` and `walk_assemble` read the chunk back. An operand is one byte, so a load finds
  its own value as long as the index is below 256, and else the one at the index modulo 256.
-/

set_option autoImplicit false

namespace Bytecode.Chunk

open Instruction

namespace Statement

def isLoad : Statement → Bool
  | load _ _ => true
  | _ => false

def isRet : Statement → Bool
  | ret _ => true
  | _ => false

/-- The constants that a statement adds. -/
def adds : Statement → List Value
  | load value _ => [value]
  | ret _ => []
  | constant value => [value]

/-- What a statement gives when its turn comes with so many constants in the pool. -/
def answer (poolSize : Nat) : Statement → Option Nat
  | load _ _ => some poolSize
  | ret _ => none
  | constant _ => some poolSize

/-- The instructions that a statement writes when its turn comes, with their lines. -/
def emits (poolSize : Nat) : Statement → List (Instruction × UInt32)
  | load _ line => [(.constant (UInt8.ofNat poolSize), line)]
  | ret line => [(.ret, line)]
  | constant _ => []

end Statement

/-- The constants that a program adds, in order. -/
def constantsOf (program : List Statement) : List Value := program.flatMap Statement.adds

/-- The statements of a program, each with the number of constants in the pool at its turn. -/
def turns (poolSize : Nat) : List Statement → List (Nat × Statement)
  | [] => []
  | statement :: program =>
      (poolSize, statement) :: turns (poolSize + statement.adds.length) program

/-- What the statements of a program give, in order. -/
def answers (poolSize : Nat) (program : List Statement) : List (Option Nat) :=
  (turns poolSize program).map fun turn => turn.2.answer turn.1

/-- The instructions that a program writes, with their lines. -/
def emitted (poolSize : Nat) (program : List Statement) : List (Instruction × UInt32) :=
  (turns poolSize program).flatMap fun turn => turn.2.emits turn.1

/-- Instructions with their lines as bytes: each byte has the line of its instruction. -/
def bytesOf (placed : List (Instruction × UInt32)) : List (UInt8 × UInt32) :=
  placed.flatMap fun item => item.1.encode.map fun byte => (byte, item.2)

/-! ### Programs -/

section Programs

variable (poolSize : Nat) (statement : Statement) (program : List Statement)

@[simp] theorem answers_cons :
    answers poolSize (statement :: program)
      = statement.answer poolSize :: answers (poolSize + statement.adds.length) program := rfl

@[simp] theorem emitted_cons :
    emitted poolSize (statement :: program)
      = statement.emits poolSize ++ emitted (poolSize + statement.adds.length) program := by
  simp [emitted, turns]

@[simp] theorem constantsOf_cons :
    constantsOf (statement :: program) = statement.adds ++ constantsOf program := by
  simp [constantsOf]

@[simp] theorem bytesOf_append (first second : List (Instruction × UInt32)) :
    bytesOf (first ++ second) = bytesOf first ++ bytesOf second := by
  simp [bytesOf]

/-- The second part of a program finds the constants that the first has added. -/
theorem turns_append (second : List Statement) :
    turns poolSize (program ++ second)
      = turns poolSize program ++ turns (poolSize + (constantsOf program).length) second := by
  induction program generalizing poolSize with
  | nil => rfl
  | cons statement program ih =>
      rw [List.cons_append, turns, ih, turns, constantsOf_cons, List.length_append,
        Nat.add_assoc, List.cons_append]

theorem emitted_append (second : List Statement) :
    emitted poolSize (program ++ second)
      = emitted poolSize program
        ++ emitted (poolSize + (constantsOf program).length) second := by
  simp [emitted, turns_append]

/-- A statement gives its answer at its place in the program. -/
theorem answers_getElem? (after : List Statement) :
    (answers poolSize (program ++ statement :: after))[program.length]?
      = some (statement.answer (poolSize + (constantsOf program).length)) := by
  induction program generalizing poolSize with
  | nil => rfl
  | cons first program ih =>
      rw [List.cons_append, answers_cons, List.length_cons, List.getElem?_cons_succ, ih,
        constantsOf_cons, List.length_append, Nat.add_assoc]

/-- The bytes of the instructions, without the lines, are their code. -/
theorem bytesOf_fst (placed : List (Instruction × UInt32)) :
    (bytesOf placed).map Prod.fst = encodeAll (placed.map Prod.fst) := by
  induction placed with
  | nil => rfl
  | cons item placed ih =>
      have hitem : (item.1.encode.map fun byte => (byte, item.2)).map Prod.fst = item.1.encode := by
        simp [Function.comp_def]
      rw [show item :: placed = [item] ++ placed from rfl, bytesOf_append, List.map_append, ih]
      simpa [bytesOf] using hitem

/-- There is an instruction for each load and each return. -/
theorem length_emitted :
    (emitted poolSize program).length
      = program.countP Statement.isLoad + program.countP Statement.isRet := by
  induction program generalizing poolSize with
  | nil => rfl
  | cons statement program ih =>
      rw [emitted_cons, List.length_append, ih]
      cases statement <;>
        simp [Statement.emits, Statement.isLoad, Statement.isRet, List.countP_cons] <;>
        omega

/-- A load takes two bytes and a return takes one. -/
theorem length_encodeAll_emitted :
    (encodeAll ((emitted poolSize program).map Prod.fst)).length
      = 2 * program.countP Statement.isLoad + program.countP Statement.isRet := by
  induction program generalizing poolSize with
  | nil => rfl
  | cons statement program ih =>
      have hsplit : encodeAll ((emitted poolSize (statement :: program)).map Prod.fst)
          = encodeAll ((statement.emits poolSize).map Prod.fst)
            ++ encodeAll ((emitted (poolSize + statement.adds.length) program).map Prod.fst) := by
        rw [emitted_cons, List.map_append]
        exact List.flatMap_append
      rw [hsplit, List.length_append, ih]
      cases statement <;>
        simp [Statement.emits, Statement.isLoad, Statement.isRet, List.countP_cons, encode] <;>
        omega

/-- An operand is a constant that the program has added by then: the index itself, or what the
one byte leaves of it, which is less. -/
theorem within_emitted :
    ∀ instruction ∈ (emitted poolSize program).map Prod.fst,
      instruction.Within (poolSize + (constantsOf program).length) := by
  induction program generalizing poolSize with
  | nil =>
      intro instruction h
      nomatch h
  | cons statement program ih =>
      intro instruction h
      rw [emitted_cons, List.map_append, List.mem_append] at h
      rw [constantsOf_cons, List.length_append, ← Nat.add_assoc]
      rcases h with hhead | htail
      · cases statement with
        | load value line =>
            obtain rfl : instruction = .constant (UInt8.ofNat poolSize) := by
              simpa [Statement.emits] using hhead
            have hle : poolSize % 256 ≤ poolSize := Nat.mod_le _ _
            show (UInt8.ofNat poolSize).toNat < _
            simp [Statement.adds]
            omega
        | ret line =>
            obtain rfl : instruction = .ret := by simpa [Statement.emits] using hhead
            trivial
        | constant value => simp [Statement.emits] at hhead
      · exact ih _ instruction htail

end Programs

/-! ### The chunk that is written -/

/-- A sound chunk that holds a list of bytes with their lines and a list of constants. -/
structure Filled (chunk : Chunk) (written : List (UInt8 × UInt32)) (pooled : List Value) : Prop
    extends chunk.Holds written pooled where
  sound : chunk.Sound

section Filled

variable {settings : Settings} {chunk : Chunk} {written : List (UInt8 × UInt32)}
  {pooled : List Value}

/-- A byte that was accepted stands after those that were there. -/
theorem Filled.push (filled : chunk.Filled written pooled) {byte : UInt8} {line : UInt32}
    (h : (chunk.push settings byte line).result = .ok ()) :
    (chunk.push settings byte line).state.Filled (written ++ [(byte, line)]) pooled := by
  rcases filled.toHolds.push settings filled.sound byte line with ⟨-, hholds⟩ | ⟨fault, herror, -⟩
  · exact ⟨hholds, filled.sound.push settings byte line⟩
  · rw [herror] at h
    nomatch h

/-- A constant that was accepted stands after those that were there, and its index is their
number. -/
theorem Filled.pushConstant (filled : chunk.Filled written pooled) {value : Value} {index : Nat}
    (h : (chunk.pushConstant settings value).result = .ok index) :
    index = pooled.length
      ∧ (chunk.pushConstant settings value).state.Filled written (pooled ++ [value]) := by
  rcases filled.toHolds.pushConstant settings filled.sound value with
    ⟨hok, hholds⟩ | ⟨fault, herror, -⟩
  · exact ⟨Except.ok.inj (h.symm.trans hok), hholds, filled.sound.pushConstant settings value⟩
  · rw [herror] at h
    nomatch h

/-- A load that was accepted has written both its bytes. -/
theorem Filled.load (filled : chunk.Filled written pooled) {value : Value} {line : UInt32}
    {index : Nat} (h : (chunk.load settings value line).result = .ok index) :
    index = pooled.length
      ∧ (chunk.load settings value line).state.Filled
          (written ++ [(0, line), (UInt8.ofNat pooled.length, line)]) (pooled ++ [value]) := by
  unfold Chunk.load pushOpcode at h ⊢
  -- The three parts in order: the constant, the byte of the kind, and the operand.
  obtain ⟨place, hconstant, hnext, hstate⟩ := Outcome.andThen_result_eq_ok h
  obtain ⟨hplace, hpooled⟩ := filled.pushConstant hconstant
  obtain ⟨⟨⟩, hopcode, hlast, hstate'⟩ := Outcome.andThen_result_eq_ok hnext
  have hcode := hpooled.push hopcode
  obtain ⟨⟨⟩, hoperand, hindex, hstate''⟩ := Outcome.andThen_result_eq_ok hlast
  have hdone := hcode.push hoperand
  rw [List.append_assoc] at hdone
  rw [Outcome.result_ok] at hindex
  rw [hstate, hstate', hstate'', Outcome.state_ok, ← hplace]
  exact ⟨(Except.ok.inj hindex).symm, hdone⟩

/-- A statement that was accepted has written its bytes and added its constant. -/
theorem emit_filled (filled : chunk.Filled written pooled) {statement : Statement}
    {answer : Option Nat} (h : (chunk.emit settings statement).result = .ok answer) :
    answer = statement.answer pooled.length
      ∧ (chunk.emit settings statement).state.Filled
          (written ++ bytesOf (statement.emits pooled.length)) (pooled ++ statement.adds) := by
  cases statement with
  | load value line =>
      obtain ⟨index, hload, rfl⟩ := Outcome.map_result_eq_ok h
      obtain ⟨rfl, hfilled⟩ := filled.load hload
      exact ⟨rfl, hfilled⟩
  | ret line =>
      obtain ⟨⟨⟩, hpush, rfl⟩ := Outcome.map_result_eq_ok h
      have hfilled := filled.push hpush
      rw [← List.append_nil pooled] at hfilled
      exact ⟨rfl, hfilled⟩
  | constant value =>
      obtain ⟨index, hconstant, rfl⟩ := Outcome.map_result_eq_ok h
      obtain ⟨rfl, hfilled⟩ := filled.pushConstant hconstant
      rw [← List.append_nil written] at hfilled
      exact ⟨rfl, hfilled⟩

/-- A program that was accepted has written the bytes of its instructions and added its
constants. The induction is on the program, since a statement's index is the number of constants
that those before it have left. -/
theorem assemble_filled (filled : chunk.Filled written pooled) {program : List Statement}
    {indices : List (Option Nat)} (h : (chunk.assemble settings program).result = .ok indices) :
    indices = answers pooled.length program
      ∧ (chunk.assemble settings program).state.Filled
          (written ++ bytesOf (emitted pooled.length program))
          (pooled ++ constantsOf program) := by
  induction program generalizing chunk written pooled indices with
  | nil =>
      obtain rfl : [] = indices := Except.ok.inj h
      have hfilled := filled
      rw [← List.append_nil written, ← List.append_nil pooled] at hfilled
      exact ⟨rfl, hfilled⟩
  | cons statement program ih =>
      -- The rest of the program finds what the first statement has left.
      unfold assemble at h ⊢
      obtain ⟨answer, hemit, hrest, hstate⟩ := Outcome.andThen_result_eq_ok h
      obtain ⟨rfl, hfilled⟩ := emit_filled filled hemit
      obtain ⟨answers, hassemble, rfl⟩ := Outcome.map_result_eq_ok hrest
      obtain ⟨rfl, hdone⟩ := ih hfilled hassemble
      rw [hstate, Outcome.state_map, answers_cons, emitted_cons, constantsOf_cons,
        bytesOf_append]
      rw [List.length_append, List.append_assoc, List.append_assoc] at hdone
      rw [List.length_append]
      exact ⟨rfl, hdone⟩

end Filled

/-! ### Reading it back -/

/-- An entry of a listing of instructions that were written with their lines tells of the
instruction at its place and has its line, which every byte of the instruction has. -/
theorem entry_of_listed {chunk : Chunk} {first rest : List (Instruction × UInt32)}
    {item : Instruction × UInt32} {pooled : List Value} {entries : List Entry}
    (holds : chunk.Holds (bytesOf (first ++ item :: rest)) pooled)
    (listed : Listed chunk 0 ((first ++ item :: rest).map Prod.fst) entries) :
    ∃ entry, entries[first.length]? = some entry
      ∧ entry.Describes chunk (encodeAll (first.map Prod.fst)).length item.1
      ∧ entry.line = item.2 := by
  have hitem : ((first ++ item :: rest).map Prod.fst)[first.length]? = some item.1 := by
    simp
  obtain ⟨entry, hentry, hdescribes⟩ := listed.getElem? hitem
  have hplace : ((first ++ item :: rest).map Prod.fst).take first.length
      = first.map Prod.fst := by
    rw [← List.map_take, List.take_left]
  rw [Nat.zero_add, hplace] at hdescribes
  refine ⟨entry, hentry, hdescribes, ?_⟩
  -- The lines of the bytes before the instruction are as many as these bytes.
  have hlength : ((bytesOf first).map Prod.snd).length
      = (encodeAll (first.map Prod.fst)).length := by
    rw [← bytesOf_fst, List.length_map, List.length_map]
  have hlines := hdescribes.line
  rw [holds.lines, bytesOf_append, List.map_append, ← hlength,
    List.getElem?_append_right (Nat.le_refl _), Nat.sub_self] at hlines
  have hline : ((bytesOf (item :: rest)).map Prod.snd)[0]? = some item.2 := by
    obtain ⟨instruction, line⟩ := item
    cases instruction <;> rfl
  exact Option.some.inj (hlines.symm.trans hline)

/-- The one byte that is left of an index leads to a constant of the program, and to the one
meant as long as the index is a byte. -/
theorem wrapped_constant (before after : List Statement) (value : Value) (line : UInt32) :
    ∃ shown,
      (constantsOf (before ++ .load value line :: after))[(constantsOf before).length % 256]?
        = some shown
      ∧ ((constantsOf before).length ≤ 255 → shown = value) := by
  have hsplit : constantsOf (before ++ .load value line :: after)
      = constantsOf before ++ value :: constantsOf after := by
    simp [constantsOf, Statement.adds]
  have hle : (constantsOf before).length % 256 ≤ (constantsOf before).length := Nat.mod_le _ _
  have hlt : (constantsOf before).length % 256
      < (constantsOf before ++ value :: constantsOf after).length := by
    rw [List.length_append, List.length_cons]
    omega
  rw [hsplit]
  refine ⟨_, List.getElem?_eq_getElem hlt, ?_⟩
  intro hbyte
  have hsame : (constantsOf before).length % 256 = (constantsOf before).length :=
    Nat.mod_eq_of_lt (by omega)
  simp [hsame]

/-- The walk of a chunk that holds the bytes of a program and its constants lists the instructions
of the program to their end. -/
theorem Filled.walk {chunk : Chunk} {program : List Statement}
    (filled : chunk.Filled (bytesOf (emitted 0 program)) (constantsOf program)) :
    (chunk.walk 0).fault = none
      ∧ Listed chunk 0 ((emitted 0 program).map Prod.fst) (chunk.walk 0).entries := by
  have represents := filled.represents
  refine walk_of_isCode represents ?_ ?_
  · intro instruction hinstruction
    have hwithin := within_emitted 0 program instruction hinstruction
    rw [Nat.zero_add] at hwithin
    rw [represents.size.2]
    exact hwithin
  · rw [List.drop_zero, filled.code, bytesOf_fst]

/-- Writing a program and walking the chunk gives the program back. The chunk is a new one or a
released one, and no statement was refused.

The walk has no fault and has one entry for each load and each return, in their order. The entry
of either stands where the instructions before it end, two bytes for each load and one for each
return, and has the line of the statement. A load shows the constant at the index that it was
given, modulo 256, which is its own value as long as the index is no more than 255. -/
theorem walk_assemble (settings : Settings) {start : Chunk} {program : List Statement}
    {indices : List (Option Nat)}
    (fresh : start = .empty ∨ ∃ used : Chunk, start = (used.release settings).state)
    (assembled : (start.assemble settings program).result = .ok indices) :
    let chunk := (start.assemble settings program).state
    let listing := chunk.walk 0
    listing.fault = none
    ∧ listing.entries.length = program.countP Statement.isLoad + program.countP Statement.isRet
    ∧ ∀ before statement after, program = before ++ statement :: after →
        let loads := before.countP Statement.isLoad
        let rets := before.countP Statement.isRet
        match statement with
        | .load value line =>
            ∃ index shown, indices[before.length]? = some (some index)
              ∧ chunk.constantAt (index % 256) = .ok shown
              ∧ (index ≤ 255 → shown = value)
              ∧ ∃ entry, listing.entries[loads + rets]? = some entry
                ∧ entry.operand = some shown
                ∧ entry.row = (2 * loads + rets, "OP_CONSTANT".toList, line,
                    some (shown.text {}))
        | .ret line =>
            ∃ entry, listing.entries[loads + rets]? = some entry
              ∧ entry.operand = none
              ∧ entry.row = (2 * loads + rets, "OP_RETURN".toList, line, none)
        | .constant _ => True := by
  intro chunk listing
  obtain rfl : start = .empty := by
    rcases fresh with hempty | ⟨used, hreleased⟩
    · exact hempty
    · rw [hreleased, state_release]
  -- What the chunk holds can be told from the program, which starts with an empty pool.
  obtain ⟨hindices, hfilled⟩ := assemble_filled ⟨holds_empty, sound_empty⟩ assembled
  have hchunk : chunk.Filled (bytesOf (emitted 0 program)) (constantsOf program) := hfilled
  have hholds := hchunk.toHolds
  have represents := hholds.represents
  obtain ⟨hfault, hlisted⟩ := hchunk.walk
  refine ⟨hfault, ?_, ?_⟩
  · rw [hlisted.length_eq, List.length_map, length_emitted]
  · -- A statement in the middle: the instructions before it are those of the part before it.
    rintro before statement after rfl
    have hplace := length_emitted 0 before
    have hoffset := length_encodeAll_emitted 0 before
    have hanswer := answers_getElem? 0 statement before after
    rw [emitted_append, emitted_cons] at hholds hlisted
    rw [Nat.zero_add] at hanswer hholds hlisted
    cases statement with
    | load value line =>
        obtain ⟨entry, hentry, hdescribes, hline⟩ := entry_of_listed hholds hlisted
        rw [hplace] at hentry
        rw [hoffset] at hdescribes
        -- The operand byte is the index modulo 256, and the entry shows the constant there.
        obtain ⟨shown, hshown, hown⟩ := wrapped_constant before after value line
        have hoperand : (Instruction.constant (UInt8.ofNat (constantsOf before).length)).operand
            chunk.constants.values.items.toList = some shown := by
          show chunk.constants.values.items.toList[(UInt8.ofNat _).toNat]? = _
          rw [hholds.values, UInt8.toNat_ofNat', hshown]
        refine ⟨(constantsOf before).length, shown, ?_, ?_, hown, entry, hentry, ?_, ?_⟩
        · rw [hindices]
          exact hanswer
        · rw [represents.constantAt, hshown]
        · rw [hdescribes.operand, hoperand]
        · rw [hdescribes.row, hline, hoperand]
          rfl
    | ret line =>
        obtain ⟨entry, hentry, hdescribes, hline⟩ := entry_of_listed hholds hlisted
        rw [hplace] at hentry
        rw [hoffset] at hdescribes
        refine ⟨entry, hentry, hdescribes.operand, ?_⟩
        rw [hdescribes.row, hline]
        rfl
    | constant value => trivial

/-- After 256 constants that nothing loads, a load is given the index 256, whose one byte is
zero: the walk shows the first constant and not the value of the load. -/
theorem walk_assemble_wraps :
    let program := List.replicate 256 (Statement.constant .nil) ++ [.load (.bool true) 7, .ret 8]
    let chunk := (empty.assemble {} program).state
    (empty.assemble {} program).result = .ok ((List.range 257).map some ++ [none])
    ∧ (chunk.walk 0).fault = none
    ∧ (chunk.walk 0).entries.length = 2
    ∧ ∃ entry, (chunk.walk 0).entries[0]? = some entry
      ∧ entry.row = (0, "OP_CONSTANT".toList, 7, some "nil".toList) := by
  intro program chunk
  have hassembled : (empty.assemble {} program).result
      = .ok ((List.range 257).map some ++ [none]) := by decide +kernel
  obtain ⟨hfault, hlength, hentries⟩ := walk_assemble {} (.inl rfl) hassembled
  obtain ⟨index, shown, hindex, hshown, -, entry, hentry, -, hrow⟩ :=
    hentries (List.replicate 256 (.constant .nil)) (.load (.bool true) 7) [.ret 8] rfl
  obtain rfl : 256 = index := by
    rw [List.length_replicate] at hindex
    simpa using hindex
  have hfirst : chunk.constantAt 0 = .ok .nil := by decide +kernel
  obtain rfl : Value.nil = shown := Except.ok.inj (hfirst.symm.trans hshown)
  rw [List.countP_replicate, List.countP_replicate] at hentry hrow
  have htwo : program.countP Statement.isLoad + program.countP Statement.isRet = 2 := by
    decide +kernel
  exact ⟨hassembled, hfault, hlength.trans htwo, entry, hentry, hrow⟩

end Bytecode.Chunk
