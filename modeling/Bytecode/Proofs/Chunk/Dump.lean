import Bytecode.Chunk.Dump
import Bytecode.Proofs.Text.Compact
import Bytecode.Proofs.Value.Equality
import Mathlib.Data.List.Forall2

/-!
# `Bytecode.Proofs.Chunk.Dump`: what a dump tells

The dump of a chunk loses nothing of what it shows. Two chunks are `Indistinct` if they have the
same code, the same lines, the same capacity, and constants that are indistinct one by one, and
their dumps are the same just if they are that (`dump_eq_dump_iff`). So it is for pools.

The dump is the compact rendering of a record, and can be read back because all that is written in
it is legible. Then the elements are compared one by one: numerals are those of one number, and the
texts of values are those of indistinct values.
-/

set_option autoImplicit false

namespace Bytecode

/-- Different natural numbers are written in different ways. -/
theorem Format.natural_injective : Function.Injective (({} : Format).natural) := by
  have hdefault : ∀ n, ({} : Format).natural n = numeral n := fun n =>
    Binary64.number_of_width rfl [] (numeral n)
  intro n n' h
  rw [hdefault, hdefault] at h
  exact numeral_injective h

/-- Lists of natural numbers are written in the same way just if they are the same. -/
theorem Format.map_natural_inj {α : Type} {toNat : α → Nat} (hinj : Function.Injective toNat)
    {elements elements' : List α} :
    elements.map (fun element => ({} : Format).natural (toNat element))
        = elements'.map (fun element => ({} : Format).natural (toNat element))
      ↔ elements = elements' :=
  (List.map_injective_iff.mpr (Format.natural_injective.comp hinj)).eq_iff

namespace Pool

/-- The pools have as many constants, and each is indistinct from the one at its index in the other
pool. -/
def Indistinct (pool other : Pool) : Prop :=
  List.Forall₂ Value.Indistinct pool.values.items.toList other.values.items.toList

variable {pool other : Pool}

/-- What holds of the text of each value holds of each text in a list of constants. -/
theorem each_item {P : Text → Prop} {format : Format}
    (hvalue : ∀ value : Value, P (value.text format)) (pool : Pool) :
    (pool.item format).Each P := by
  refine .list fun text htext => ?_
  obtain ⟨value, -, rfl⟩ := List.mem_map.mp htext
  exact hvalue value

/-- Pools have the same texts in them just if they are indistinct. -/
theorem item_eq_item_iff : pool.item {} = other.item {} ↔ pool.Indistinct other := by
  -- Equal lists of texts are lists of texts that are equal one by one.
  unfold item Indistinct
  rw [Item.list.injEq, ← List.forall₂_eq_eq_eq, List.forall₂_map_left_iff,
    List.forall₂_map_right_iff]
  simp only [Value.dump_eq_text, Value.text_eq_text_iff]

/-- Pools have the same dump just if they are indistinct. -/
theorem dump_eq_dump_iff : pool.dump {} = other.dump {} ↔ pool.Indistinct other := by
  rw [← item_eq_item_iff]
  -- Nothing comes after the list.
  have hread := Item.compact_append_inj (each_item Value.legible_text pool)
    (each_item Value.legible_text other) .nil .nil
  rw [List.append_nil, List.append_nil, and_iff_left rfl] at hread
  exact hread

end Pool

namespace Chunk

/-- The chunks have the same code, lines and capacity, and indistinct constants. -/
structure Indistinct (chunk other : Chunk) : Prop where
  code : chunk.code.items = other.code.items
  lines : chunk.lines.items = other.lines.items
  capacity : chunk.capacity = other.capacity
  constants : chunk.constants.Indistinct other.constants

variable {chunk other : Chunk}

/-- What holds of the text of each number and each value holds of each text in a chunk's record. -/
theorem each_record {P : Text → Prop} {format : Format}
    (hnatural : ∀ n, P (format.natural n)) (hvalue : ∀ value : Value, P (value.text format))
    (chunk : Chunk) : ∀ field ∈ (chunk.record format).fields, field.2.Each P := by
  have hnumbers : ∀ {α : Type} (elements : List α) (toNat : α → Nat),
      (Item.list (elements.map fun element => format.natural (toNat element))).Each P := by
    intro α elements toNat
    refine .list fun text htext => ?_
    obtain ⟨element, -, rfl⟩ := List.mem_map.mp htext
    exact hnatural _
  intro field hfield
  simp only [record, List.mem_cons, List.not_mem_nil, or_false] at hfield
  obtain rfl | rfl | rfl | rfl := hfield
  · exact hnumbers _ _
  · exact hnumbers _ _
  · exact .leaf (hnatural _)
  · exact Pool.each_item hvalue chunk.constants

/-- Chunks have the same record just if they are indistinct. -/
theorem record_eq_record_iff : chunk.record {} = other.record {} ↔ chunk.Indistinct other := by
  have hbytes : Function.Injective UInt8.toNat := fun _ _ => UInt8.toNat_inj.mp
  have hlines : Function.Injective UInt32.toNat := fun _ _ => UInt32.toNat_inj.mp
  simp only [record, Record.mk.injEq, List.cons.injEq, Prod.mk.injEq, true_and, and_true,
    Item.list.injEq, Item.leaf.injEq, Format.map_natural_inj hbytes, Format.map_natural_inj hlines,
    Format.natural_injective.eq_iff, Pool.item_eq_item_iff, Array.toList_inj]
  exact ⟨fun ⟨hcode, hlines, hcapacity, hconstants⟩ => ⟨hcode, hlines, hcapacity, hconstants⟩,
    fun h => ⟨h.code, h.lines, h.capacity, h.constants⟩⟩

/-- Chunks have the same dump just if they are indistinct. -/
theorem dump_eq_dump_iff : chunk.dump {} = other.dump {} ↔ chunk.Indistinct other := by
  have heach := each_record (Format.legible_natural {}) Value.legible_text
  rw [← record_eq_record_iff]
  exact Record.compact_inj rfl rfl (heach chunk) (heach other)

/-- The dump of a chunk tells its code, its lines, its capacity and its constants, and the dump of a
pool tells its constants: how many there are, and of each its kind and its bits, but for one that is
no number, of which it tells only that. -/
theorem dumps_lossless :
    (∀ chunk other : Chunk, chunk.dump {} = other.dump {} ↔ chunk.Indistinct other)
      ∧ ∀ pool other : Pool, pool.dump {} = other.dump {} ↔ pool.Indistinct other :=
  ⟨fun _ _ => dump_eq_dump_iff, fun _ _ => Pool.dump_eq_dump_iff⟩

end Chunk

end Bytecode
