import Bytecode.Proofs.Text.Parts
import Bytecode.Proofs.Text.Plain

/-!
# `Bytecode.Proofs.Text.Layout`: one line and several

The compact and the pretty rendering of a record have the same leaves and elements in the same
order. They differ in their blanks and line breaks, which `unspaced` takes out, and in a comma after
the last part of each list and record, which `withoutClosingCommas` takes out.

`Trims` relates a text to what is left of it without those commas, and is stated so that it carries
over from the parts to a list or a record of them (`Trims.enclosed`). So it holds of the two
renderings of a part and of a record (`Item.Each.trims`, `Record.Plain.trims`).

`Record.splitOn_pretty` gives the lines of a pretty rendering one by one.
-/

set_option autoImplicit false

namespace Bytecode

/-! ### Without blanks -/

/-- The text without its blanks and line breaks. -/
def unspaced (text : Text) : Text := text.filter fun c => c != ' ' && c != '\n'

@[simp] theorem unspaced_append (first second : Text) :
    unspaced (first ++ second) = unspaced first ++ unspaced second :=
  List.filter_append ..

/-- A plain text is plain without its blanks. -/
theorem Plain.unspaced {text : Text} (h : Plain text) : Plain (unspaced text) := fun c hc =>
  h c (List.mem_of_mem_filter hc)

/-- An indentation is all blanks. -/
@[simp] theorem unspaced_indentation (depth : Nat) : unspaced (indentation depth) = [] :=
  List.filter_replicate_of_neg (by decide)

/-- A line is its text and the comma. -/
@[simp] theorem unspaced_prettyLine (depth : Nat) (text : Text) :
    unspaced (prettyLine depth text) = unspaced text ++ [','] := by
  unfold prettyLine
  rw [unspaced_append, unspaced_append, unspaced_indentation]
  rfl

/-- Lines are their texts with a comma after each. -/
theorem unspaced_flatMap_prettyLine {α : Type} (depth : Nat) (write : α → Text) (parts : List α) :
    unspaced (parts.flatMap fun part => prettyLine depth (write part))
      = parts.flatMap fun part => unspaced (write part) ++ [','] := by
  simp only [← unspaced_prettyLine depth]
  exact List.filter_flatMap

/-- Between the texts that are joined, the commas are left. -/
theorem unspaced_joined (parts : List Text) :
    unspaced (", ".toList.intercalate parts) = [','].intercalate (parts.map unspaced) := by
  cases parts with
  | nil => rfl
  | cons head tail =>
      have hseparator : unspaced ", ".toList = [','] := by decide
      have htail : unspaced (tail.flatMap (", ".toList ++ ·))
          = tail.flatMap fun part => [','] ++ unspaced part := by
        unfold unspaced at hseparator ⊢
        simp only [List.filter_flatMap, List.filter_append, hseparator]
      rw [intercalate_cons, unspaced_append, htail, List.map_cons, intercalate_cons,
        List.flatMap_map]

/-! ### Without closing commas -/

/-- The character ends a list or a record. -/
def closes (c : Char) : Bool := c == ']' || c == '\x7d'

/-- What ends a list or a record is a mark. -/
theorem mem_marks_of_closes {c : Char} (h : closes c = true) : c ∈ marks := by
  rcases (Bool.or_eq_true _ _).mp h with h | h
  · rw [eq_of_beq h]
    decide
  · rw [eq_of_beq h]
    decide

/-- The text without each comma that directly precedes the end of a list or a record. -/
def withoutClosingCommas : Text → Text
  | [] => []
  | c :: rest =>
      if c = ',' ∧ rest.head?.any closes then
        withoutClosingCommas rest
      else
        c :: withoutClosingCommas rest

/-- What is no comma stays. -/
theorem withoutClosingCommas_cons {c : Char} (hc : c ≠ ',') (rest : Text) :
    withoutClosingCommas (c :: rest) = c :: withoutClosingCommas rest :=
  if_neg fun h => hc h.1

/-- A comma at the end of a list or a record goes. -/
theorem withoutClosingCommas_comma {c : Char} (hc : closes c = true) (rest : Text) :
    withoutClosingCommas (',' :: c :: rest) = withoutClosingCommas (c :: rest) :=
  if_pos ⟨rfl, hc⟩

/-- A comma before something else stays. -/
theorem withoutClosingCommas_comma_of_not {rest : Text} (h : rest.head?.any closes = false) :
    withoutClosingCommas (',' :: rest) = ',' :: withoutClosingCommas rest :=
  if_neg fun hcloses => Bool.eq_false_iff.mp h hcloses.2

/-- Without closing commas the first text becomes the second, whatever comes after it. A comma
before the text stays, because the text does not begin with what ends a list or a record. -/
structure Trims (text trimmed : Text) : Prop where
  append : ∀ rest, withoutClosingCommas (text ++ rest) = trimmed ++ withoutClosingCommas rest
  opens : text.head?.any closes = false

namespace Trims

/-- A plain text has no commas. -/
theorem of_plain {text : Text} (h : Plain text) : Trims text text where
  append rest := by
    induction text with
    | nil => rfl
    | cons c text ih =>
        have hc : c ≠ ',' := fun hcomma => h c List.mem_cons_self (hcomma ▸ by decide)
        rw [List.cons_append, withoutClosingCommas_cons hc,
          ih fun other hother => h other (List.mem_cons_of_mem c hother), List.cons_append]
  opens := by
    cases text with
    | nil => rfl
    | cons c text =>
        exact Bool.eq_false_iff.mpr fun hc => h c List.mem_cons_self (mem_marks_of_closes hc)

/-- A text after another takes nothing from it, and neither loses more than alone. -/
theorem concat {first second trimmed trimmed' : Text} (h : Trims first trimmed)
    (h' : Trims second trimmed') : Trims (first ++ second) (trimmed ++ trimmed') where
  append rest := by
    rw [List.append_assoc, h.append, h'.append, List.append_assoc]
  opens := by
    cases first with
    | nil => exact h'.opens
    | cons c first => exact h.opens

/-- A whole text becomes the other. -/
theorem withoutClosingCommas_eq {text trimmed : Text} (h : Trims text trimmed) :
    withoutClosingCommas text = trimmed := by
  have happend := h.append []
  rwa [List.append_nil, withoutClosingCommas, List.append_nil] at happend

/-- Parts with a comma after each become parts with a comma between two, where a list or a record
ends. -/
theorem closed_parts {α : Type} {write trimmed : α → Text} {parts : List α}
    (h : ∀ part ∈ parts, Trims (write part) (trimmed part)) {c : Char} (hc : closes c = true)
    (rest : Text) :
    withoutClosingCommas (parts.flatMap (fun part => write part ++ [',']) ++ c :: rest)
      = [','].intercalate (parts.map trimmed) ++ c :: withoutClosingCommas rest := by
  have hclose : withoutClosingCommas (c :: rest) = c :: withoutClosingCommas rest :=
    withoutClosingCommas_cons (by rintro rfl; exact absurd hc (by decide)) rest
  induction parts with
  | nil => exact hclose
  | cons part parts ih =>
      rw [List.forall_mem_cons] at h
      rw [List.flatMap_cons, List.append_assoc, List.append_assoc, h.1.append]
      cases parts with
      | nil =>
          -- This comma is the last one.
          show trimmed part ++ withoutClosingCommas (',' :: c :: rest) = _
          rw [withoutClosingCommas_comma hc, hclose]
          simp
      | cons next parts =>
          have hopens : ((next :: parts).flatMap (fun part => write part ++ [','])
              ++ c :: rest).head?.any closes = false := by
            -- The next part may be empty, but there is a comma after it.
            have hnext := (h.2 next List.mem_cons_self).opens
            cases hwrite : write next with
            | nil => simp [hwrite, closes]
            | cons first text => simpa [hwrite] using hnext
          rw [List.singleton_append, withoutClosingCommas_comma_of_not hopens, ih h.2]
          simp [List.intercalate_cons_cons]

/-- A list or a record takes over what holds of its parts. -/
theorem enclosed {α : Type} {write trimmed : α → Text} {parts : List α}
    (h : ∀ part ∈ parts, Trims (write part) (trimmed part)) {o c : Char} (ho : o ∈ "[\x7b".toList)
    (hc : closes c = true) :
    Trims (o :: parts.flatMap (fun part => write part ++ [',']) ++ [c])
      (o :: [','].intercalate (parts.map trimmed) ++ [c]) where
  append rest := by
    have hcomma : o ≠ ',' := by
      rintro rfl
      exact absurd ho (by decide)
    show withoutClosingCommas (o :: (_ ++ [c]) ++ rest) = _
    rw [List.cons_append, List.append_assoc, List.singleton_append,
      withoutClosingCommas_cons hcomma, closed_parts h hc]
    simp
  opens := by
    have hopen : ∀ o ∈ "[\x7b".toList, closes o = false := by simp [closes]
    exact hopen o ho

end Trims

/-! ### Records -/

namespace Item

/-- The pretty rendering of a list is its elements with a comma after each. -/
theorem unspaced_pretty_list (depth : Nat) (elements : List Text) :
    unspaced ((list elements).pretty depth)
      = '[' :: elements.flatMap (fun element => unspaced element ++ [',']) ++ [']'] := by
  cases elements with
  | nil => rfl
  | cons element elements =>
      have hlines := unspaced_flatMap_prettyLine (depth + 1) id (element :: elements)
      show unspaced ("[\n".toList ++ _ ++ indentation depth ++ "]".toList) = _
      rw [unspaced_append, unspaced_append, unspaced_append, unspaced_indentation, List.append_nil]
      exact congrArg ('[' :: · ++ [']']) hlines

/-- The compact rendering of a list is its elements with a comma between two. -/
theorem unspaced_compact_list (elements : List Text) :
    unspaced (list elements).compact
      = '[' :: [','].intercalate (elements.map unspaced) ++ [']'] := by
  unfold compact
  rw [unspaced_append, unspaced_append, unspaced_joined]
  rfl

/-- The two renderings of a part are the same without blanks and closing commas. -/
theorem Each.trims {item : Item} (h : item.Each Plain) (depth : Nat) :
    Trims (unspaced (item.pretty depth)) (unspaced item.compact) := by
  cases h with
  | leaf h => exact .of_plain h.unspaced
  | list h =>
      rw [unspaced_pretty_list, unspaced_compact_list]
      exact .enclosed (fun element helement => .of_plain (h element helement).unspaced)
        (by decide) (by decide)

end Item

namespace Record

/-- The texts of the record are plain, its names included. -/
structure Plain (record : Record) : Prop where
  name : Bytecode.Plain record.name
  fields : ∀ field ∈ record.fields, Bytecode.Plain field.1 ∧ field.2.Each Bytecode.Plain

/-- The pretty rendering of a record is its fields with a comma after each. -/
theorem unspaced_pretty (record : Record) :
    unspaced record.pretty = unspaced record.name
      ++ ('\x7b' :: record.fields.flatMap
          (fun field => unspaced (fieldText field.1 (field.2.pretty 1)) ++ [','])
        ++ ['\x7d']) := by
  have hopen : unspaced " \x7b\n".toList = ['\x7b'] := by decide
  have hclose : unspaced "\x7d".toList = ['\x7d'] := by decide
  unfold pretty
  rw [unspaced_append, unspaced_append, unspaced_append, unspaced_flatMap_prettyLine, hopen, hclose,
    List.append_assoc, List.append_assoc]
  rfl

/-- The compact rendering of a record is its fields with a comma between two. -/
theorem unspaced_compact (record : Record) :
    unspaced record.compact = unspaced record.name
      ++ ('\x7b' :: [','].intercalate
          (record.fields.map fun field => unspaced (fieldText field.1 field.2.compact))
        ++ ['\x7d']) := by
  have hopen : unspaced " \x7b ".toList = ['\x7b'] := by decide
  have hclose : unspaced " \x7d".toList = ['\x7d'] := by decide
  unfold compact
  rw [unspaced_append, unspaced_append, unspaced_append, unspaced_joined, List.map_map, hopen,
    hclose, List.append_assoc, List.append_assoc]
  rfl

/-- The two renderings of a field are the same without blanks and closing commas. -/
theorem trims_field {name : Text} {item : Item} (hname : Bytecode.Plain name)
    (hitem : item.Each Bytecode.Plain) :
    Trims (unspaced (fieldText name (item.pretty 1))) (unspaced (fieldText name item.compact)) := by
  have hlabel : Bytecode.Plain (name ++ ": ".toList) := plain_append.mpr ⟨hname, by decide⟩
  unfold fieldText
  rw [unspaced_append, unspaced_append _ item.compact]
  exact (Trims.of_plain hlabel.unspaced).concat (hitem.trims 1)

/-- The two renderings of a record are the same without blanks and closing commas. -/
theorem Plain.trims {record : Record} (h : record.Plain) :
    Trims (unspaced record.pretty) (unspaced record.compact) := by
  rw [unspaced_pretty, unspaced_compact]
  refine (Trims.of_plain h.name.unspaced).concat (Trims.enclosed ?_ (by decide) (by decide))
  exact fun field hfield => trims_field (h.fields field hfield).1 (h.fields field hfield).2

end Record

/-! ### Lines -/

/-- The lines of a field that is a list: one for the whole list if it is empty, and otherwise one
for each element between those for the two brackets. -/
def listLines (name : Text) : List Text → List Text
  | [] => ["    ".toList ++ name ++ ": [],".toList]
  | elements =>
      ("    ".toList ++ name ++ ": [".toList)
        :: elements.map (fun element => "        ".toList ++ element ++ ",".toList)
        ++ ["    ],".toList]

/-- The lines of a field. -/
def fieldLines (name : Text) : Item → List Text
  | .leaf text => ["    ".toList ++ name ++ ": ".toList ++ text ++ ",".toList]
  | .list elements => listLines name elements

/-- The lines that the elements of a list take, and the bracket after them. An empty list has
none. -/
def furtherLines (count : Nat) : Nat := if count = 0 then 0 else count + 1

/-- A list takes the line of its name and those of its elements. -/
theorem length_listLines (name : Text) (elements : List Text) :
    (listLines name elements).length = 1 + furtherLines elements.length := by
  cases elements with
  | nil => rfl
  | cons element elements =>
      simp [listLines, furtherLines]
      omega

/-- The lines of elements that stand two levels deep. -/
theorem flatMap_prettyLine_two (elements : List Text) :
    elements.flatMap (prettyLine 2)
      = (elements.map fun element => "        ".toList ++ element ++ ",".toList).flatMap
          (· ++ ['\n']) := by
  rw [List.flatMap_map]
  refine List.flatMap_congr fun element _ => ?_
  simp [prettyLine, indentation]

/-- A field that stands one level deep in a pretty rendering is its lines, each with a line break.
-/
theorem prettyLine_field (name : Text) (item : Item) :
    prettyLine 1 (fieldText name (item.pretty 1))
      = (fieldLines name item).flatMap (· ++ ['\n']) := by
  cases item with
  | leaf text => simp [prettyLine, fieldText, fieldLines, indentation, Item.pretty]
  | list elements =>
      cases elements with
      | nil => simp [prettyLine, fieldText, fieldLines, listLines, indentation, Item.pretty]
      | cons element elements =>
          have helements := flatMap_prettyLine_two (element :: elements)
          show prettyLine 1 (fieldText name
              ("[\n".toList ++ (element :: elements).flatMap (prettyLine 2) ++ indentation 1
                ++ "]".toList)) = _
          rw [helements]
          simp [prettyLine, fieldText, fieldLines, listLines, indentation]

/-- A field of plain texts has no line break within a line. -/
theorem newline_not_mem_fieldLines {name : Text} {item : Item} (hname : Plain name)
    (hitem : item.Each Plain) : ∀ line ∈ fieldLines name item, '\n' ∉ line := by
  have hplain : ∀ {text : Text}, Plain text → '\n' ∉ text := fun h => h.not_mem (by decide)
  cases hitem with
  | leaf h => simp [fieldLines, hplain hname, hplain h]
  | @list elements h =>
      cases elements with
      | nil => simp [fieldLines, listLines, hplain hname]
      | cons element elements =>
          intro line hline
          obtain rfl | hline | rfl : line = "    ".toList ++ name ++ ": [".toList
              ∨ line ∈ (element :: elements).map
                (fun element => "        ".toList ++ element ++ ",".toList)
              ∨ line = "    ],".toList := by
            simpa [fieldLines, listLines, or_assoc] using hline
          · simp [hplain hname]
          · obtain ⟨other, hother, rfl⟩ := List.mem_map.mp hline
            simp [hplain (h other hother)]
          · decide

namespace Record

/-- The lines of a record: its name and its fields, and a brace at the end. -/
def lines (record : Record) : List Text :=
  (record.name ++ " \x7b".toList)
    :: record.fields.flatMap (fun field => fieldLines field.1 field.2) ++ ["\x7d".toList]

/-- A pretty rendering is its lines with a line break between two. -/
theorem pretty_eq (record : Record) : record.pretty = ['\n'].intercalate record.lines := by
  -- Only the brace has no line break after it.
  unfold lines pretty
  rw [intercalate_append_cons]
  simp [prettyLine_field, List.flatMap_assoc]

/-- A pretty rendering is taken apart into its lines at the line breaks. -/
theorem splitOn_pretty {record : Record} (h : record.Plain) :
    record.pretty.splitOn '\n' = record.lines := by
  rw [pretty_eq]
  -- There is no line break within a line.
  refine List.splitOn_intercalate '\n' ?_ (List.cons_ne_nil _ _)
  intro line hline
  simp only [lines, List.cons_append, List.mem_cons, List.mem_append, List.mem_flatMap,
    List.not_mem_nil, or_false] at hline
  obtain rfl | ⟨field, hfield, hline⟩ | rfl := hline
  · have hname : '\n' ∉ record.name := h.name.not_mem (by decide)
    simp [hname]
  · obtain ⟨hname, hitem⟩ := h.fields field hfield
    exact newline_not_mem_fieldLines hname hitem line hline
  · decide

end Record

end Bytecode
