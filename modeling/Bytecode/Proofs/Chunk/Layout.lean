import Bytecode.Proofs.Chunk.Dump
import Bytecode.Proofs.Text.Layout

/-!
# `Bytecode.Proofs.Chunk.Layout`: a dump on one line and on several

A format tells how each number and value is written, and whether the dump takes one line or several.
The first does not depend on the second: a chunk has the same record in both forms
(`record_alternate`), and a pool the same list of texts. So the two dumps are two renderings of the
same texts. `layouts_agree` says that they differ in blanks and in the last commas only, and gives
the lines of the longer one.
-/

set_option autoImplicit false

namespace Bytecode

variable (format : Format)

namespace Pool

/-- The texts of the constants do not depend on the form of the dump. -/
theorem item_alternate (pool : Pool) (alternate : Bool) :
    pool.item { format with alternate } = pool.item format := rfl

/-- The two dumps of a pool are the same without blanks and closing commas. -/
theorem withoutClosingCommas_dump (pool : Pool) :
    withoutClosingCommas (unspaced (pool.dump { format with alternate := true }))
      = unspaced (pool.dump { format with alternate := false }) := by
  unfold dump
  rw [item_alternate, item_alternate]
  exact ((each_item (Value.plain_text format) pool).trims 0).withoutClosingCommas_eq

end Pool

namespace Chunk

/-- The texts in a chunk's record do not depend on the form of the dump. -/
theorem record_alternate (chunk : Chunk) (alternate : Bool) :
    chunk.record { format with alternate } = chunk.record format := rfl

/-- The texts in a chunk's record are plain. -/
theorem plain_record (chunk : Chunk) : (chunk.record format).Plain where
  name := by
    show Plain "Chunk".toList
    decide
  fields field hfield := by
    have hnames : ∀ name ∈ (chunk.record format).fields.map Prod.fst, Plain name := by
      show ∀ name ∈ ["code".toList, "lines".toList, "capacity".toList, "constants".toList],
        Plain name
      decide
    exact ⟨hnames _ (List.mem_map_of_mem hfield),
      each_record (fun n => (format.legible_natural n).plain) (Value.plain_text format) chunk
        field hfield⟩

/-- The two dumps of a chunk are the same without blanks and closing commas. -/
theorem withoutClosingCommas_dump (chunk : Chunk) :
    withoutClosingCommas (unspaced (chunk.dump { format with alternate := true }))
      = unspaced (chunk.dump { format with alternate := false }) := by
  unfold dump
  rw [record_alternate, record_alternate]
  exact (chunk.plain_record format).trims.withoutClosingCommas_eq

/-- The lines of a dump on several lines: those of the four fields, between the name and the brace.
-/
def dumpLines (chunk : Chunk) : List Text :=
  ["Chunk \x7b".toList]
    ++ listLines "code".toList (chunk.code.items.toList.map fun byte => format.natural byte.toNat)
    ++ listLines "lines".toList (chunk.lines.items.toList.map fun line => format.natural line.toNat)
    ++ ["    capacity: ".toList ++ format.natural chunk.capacity ++ ",".toList]
    ++ listLines "constants".toList
      (chunk.constants.values.items.toList.map (Value.text format))
    ++ ["\x7d".toList]

/-- A dump on several lines is taken apart into its lines at the line breaks. -/
theorem splitOn_dump (chunk : Chunk) :
    (chunk.dump { format with alternate := true }).splitOn '\n' = chunk.dumpLines format := by
  unfold dump
  rw [record_alternate]
  refine (Record.splitOn_pretty (chunk.plain_record format)).trans ?_
  simp only [dumpLines, Record.lines, record, Pool.item, fieldLines, List.flatMap_cons,
    List.flatMap_nil, List.append_nil, List.cons_append, List.append_assoc]
  rfl

/-- There is a line for the name, for each field and for the brace, and more for each list that is
not empty. -/
theorem length_dumpLines (chunk : Chunk) :
    (chunk.dumpLines format).length = 6 + furtherLines chunk.code.items.size
      + furtherLines chunk.lines.items.size + furtherLines chunk.constants.values.items.size := by
  simp only [dumpLines, List.length_append, length_listLines, List.length_map,
    Array.length_toList, List.length_singleton]
  omega

/-- In every format, the dumps of a chunk and of a pool on several lines and on one are the same
when the blanks and line breaks are taken out of both, and out of the longer one the comma directly
before each closing bracket or brace. The lines of the longer dump of a chunk are those listed. They
are six, and for each list that is not empty one more for each element, after eight blanks, and one
for the bracket at the end. -/
theorem layouts_agree :
    (∀ chunk : Chunk,
      withoutClosingCommas (unspaced (chunk.dump { format with alternate := true }))
        = unspaced (chunk.dump { format with alternate := false }))
      ∧ (∀ pool : Pool,
        withoutClosingCommas (unspaced (pool.dump { format with alternate := true }))
          = unspaced (pool.dump { format with alternate := false }))
      ∧ ∀ chunk : Chunk,
        (chunk.dump { format with alternate := true }).splitOn '\n' = chunk.dumpLines format
          ∧ (chunk.dumpLines format).length
            = 6 + furtherLines chunk.code.items.size + furtherLines chunk.lines.items.size
              + furtherLines chunk.constants.values.items.size :=
  ⟨withoutClosingCommas_dump format, Pool.withoutClosingCommas_dump format,
    fun chunk => ⟨chunk.splitOn_dump format, chunk.length_dumpLines format⟩⟩

end Chunk

end Bytecode
