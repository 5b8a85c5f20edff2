import Bytecode.Proofs.Text.Plain

/-!
# `Bytecode.Proofs.Text.Compact`: reading a compact rendering

A compact rendering says everything that is in the record. A leaf ends at a comma or where the text
ends, and a list ends at its bracket. None of these marks is in the text of a leaf or an element, so
that the parts can be found again.

* `joined_inj`: joined texts can be taken apart at the commas.
* `Item.compact_append_inj`: a part can be told apart from what comes after it.
* `Record.compact_inj`: records with the same names in them have the same rendering just if they
  are the same.
-/

set_option autoImplicit false

namespace Bytecode

/-! ### Joined texts -/

/-- The blank after a comma can be counted to the part that it precedes. -/
theorem intercalate_comma (head : Text) (tail : List Text) :
    ", ".toList.intercalate (head :: tail) = [','].intercalate (head :: tail.map (' ' :: ·)) := by
  rw [intercalate_cons, intercalate_cons, List.flatMap_map]
  rfl

/-- Only commas, blanks and what is in the parts is in joined texts. -/
theorem mem_of_mem_joined {parts : List Text} {c : Char} (h : c ∈ ", ".toList.intercalate parts) :
    c ∈ ", ".toList ∨ ∃ part ∈ parts, c ∈ part := by
  cases parts with
  | nil => exact absurd h List.not_mem_nil
  | cons head tail =>
      rw [intercalate_cons, List.mem_append, List.mem_flatMap] at h
      rcases h with hhead | ⟨part, hpart, hc⟩
      · exact .inr ⟨head, List.mem_cons_self, hhead⟩
      · exact (List.mem_append.mp hc).imp_right fun hc => ⟨part, List.mem_cons_of_mem _ hpart, hc⟩

/-- Nothing is joined just if there are no parts: a legible part leaves something. -/
theorem joined_eq_nil_iff {parts : List Text} (h : ∀ part ∈ parts, Legible part) :
    ", ".toList.intercalate parts = [] ↔ parts = [] := by
  cases parts with
  | nil => simp
  | cons head tail =>
      have hne := (h head List.mem_cons_self).nonempty
      rw [intercalate_cons]
      simp [hne]

/-- The parts of joined texts are what stands between the commas. -/
theorem splitOn_joined {head : Text} {tail : List Text}
    (h : ∀ part ∈ head :: tail, Plain part) :
    (", ".toList.intercalate (head :: tail)).splitOn ',' = head :: tail.map (' ' :: ·) := by
  rw [intercalate_comma]
  refine List.splitOn_intercalate ',' ?_ (List.cons_ne_nil _ _)
  have hcomma : ∀ part ∈ head :: tail, ',' ∉ part := fun part hpart =>
    (h part hpart).not_mem (by decide)
  rw [List.forall_mem_cons] at hcomma ⊢
  refine ⟨hcomma.1, fun part hpart => ?_⟩
  obtain ⟨other, hother, rfl⟩ := List.mem_map.mp hpart
  simpa using hcomma.2 other hother

/-- Joined texts are the same just if the parts are. -/
theorem joined_inj {parts parts' : List Text} (h : ∀ part ∈ parts, Legible part)
    (h' : ∀ part ∈ parts', Legible part) :
    ", ".toList.intercalate parts = ", ".toList.intercalate parts' ↔ parts = parts' := by
  refine ⟨fun heq => ?_, congrArg _⟩
  cases parts with
  | nil => exact ((joined_eq_nil_iff h').mp heq.symm).symm
  | cons head tail =>
      cases parts' with
      | nil => exact (joined_eq_nil_iff h).mp heq
      | cons head' tail' =>
          have hsplit := congrArg (List.splitOn ',') heq
          rw [splitOn_joined fun part hpart => (h part hpart).plain,
            splitOn_joined fun part hpart => (h' part hpart).plain, List.cons.injEq] at hsplit
          -- The blanks can be taken off again.
          have hblank : Function.Injective (' ' :: · : Text → Text) := fun _ _ =>
            List.tail_eq_of_cons_eq
          rw [hsplit.1, List.map_injective_iff.mpr hblank hsplit.2]

/-! ### Parts -/

/-- What may come after a part of a record: nothing, or the comma before the next field. -/
inductive EndsPart : Text → Prop
  | nil : EndsPart []
  | comma (rest : Text) : EndsPart (',' :: rest)

/-- A plain text can be told apart from what comes after it. -/
theorem Plain.append_inj {text text' rest rest' : Text} (h : Plain text) (h' : Plain text')
    (hrest : EndsPart rest) (hrest' : EndsPart rest') :
    text ++ rest = text' ++ rest' ↔ text = text' ∧ rest = rest' := by
  have hcomma : ',' ∉ text := h.not_mem (by decide)
  have hcomma' : ',' ∉ text' := h'.not_mem (by decide)
  cases hrest with
  | nil =>
      cases hrest' with
      | nil => simp
      | comma rest' =>
          -- One side has a comma, and the other has none.
          refine iff_of_false (fun heq => hcomma ?_) (by simp)
          rw [List.append_nil] at heq
          simp [heq]
  | comma rest =>
      cases hrest' with
      | nil =>
          refine iff_of_false (fun heq => hcomma' ?_) (by simp)
          rw [List.append_nil] at heq
          simp [← heq]
      | comma rest' => rw [separated_inj hcomma hcomma', List.cons.injEq, eq_self, true_and]

namespace Item

/-- A list ends at its bracket. -/
theorem compact_list_append_inj {elements elements' : List Text} {rest rest' : Text}
    (h : ∀ element ∈ elements, Legible element) (h' : ∀ element ∈ elements', Legible element) :
    (list elements).compact ++ rest = (list elements').compact ++ rest'
      ↔ elements = elements' ∧ rest = rest' := by
  have hcompact : ∀ (elements : List Text) (rest : Text), (list elements).compact ++ rest
      = '[' :: (", ".toList.intercalate elements ++ ']' :: rest) := by
    intro elements rest
    simp [compact]
  have hbracket : ∀ {elements : List Text}, (∀ element ∈ elements, Legible element) →
      ']' ∉ ", ".toList.intercalate elements := by
    intro elements h hmem
    rcases mem_of_mem_joined hmem with hc | ⟨part, hpart, hc⟩
    · exact absurd hc (by decide)
    · exact (h part hpart).plain.not_mem (by decide) hc
  rw [hcompact, hcompact, List.cons_inj_right, separated_inj (hbracket h) (hbracket h'),
    joined_inj h h']

/-- A plain leaf does not begin like a list. -/
theorem compact_leaf_append_ne {text rest : Text} (h : Plain text) (hrest : EndsPart rest)
    (elements : List Text) (rest' : Text) :
    (leaf text).compact ++ rest ≠ (list elements).compact ++ rest' := by
  show text ++ rest ≠ '[' :: _
  cases text with
  | nil =>
      -- An empty leaf is followed by a comma or by nothing.
      cases hrest with
      | nil => exact (List.cons_ne_nil _ _).symm
      | comma rest => exact fun heq => nomatch heq
  | cons c text =>
      intro heq
      obtain rfl : c = '[' := (List.cons.inj heq).1
      exact h '[' List.mem_cons_self (by decide)

/-- A part can be told apart from what comes after it. -/
theorem compact_append_inj {item item' : Item} {rest rest' : Text} (h : item.Each Legible)
    (h' : item'.Each Legible) (hrest : EndsPart rest) (hrest' : EndsPart rest') :
    item.compact ++ rest = item'.compact ++ rest' ↔ item = item' ∧ rest = rest' := by
  cases h with
  | leaf h =>
      cases h' with
      | leaf h' =>
          rw [leaf.injEq]
          exact h.plain.append_inj h'.plain hrest hrest'
      | list _ => exact iff_of_false (compact_leaf_append_ne h.plain hrest _ _) nofun
  | list h =>
      cases h' with
      | leaf h' => exact iff_of_false (compact_leaf_append_ne h'.plain hrest' _ _).symm nofun
      | list h' => rw [list.injEq, compact_list_append_inj h h']

end Item

/-! ### Records -/

namespace Record

/-- A field after the first one, with the comma before it. -/
def nextField (field : Text × Item) : Text := ", ".toList ++ fieldText field.1 field.2.compact

/-- After a part of a record comes the comma of the next field, if there is one. -/
theorem endsPart_fields (fields : List (Text × Item)) : EndsPart (fields.flatMap nextField) := by
  cases fields with
  | nil => exact .nil
  | cons field fields => exact .comma _

/-- Fields with the same names are the same if they are written in the same way. -/
theorem fields_inj {fields fields' : List (Text × Item)}
    (hnames : fields.map Prod.fst = fields'.map Prod.fst)
    (h : ∀ field ∈ fields, field.2.Each Legible) (h' : ∀ field ∈ fields', field.2.Each Legible)
    (heq : fields.flatMap nextField = fields'.flatMap nextField) : fields = fields' := by
  induction fields generalizing fields' with
  | nil => exact (List.map_eq_nil_iff.mp hnames.symm).symm
  | cons field fields ih =>
      cases fields' with
      | nil => nomatch hnames
      | cons field' fields' =>
          obtain ⟨name, item⟩ := field
          obtain ⟨name', item'⟩ := field'
          rw [List.map_cons, List.map_cons, List.cons.injEq] at hnames
          obtain rfl : name = name' := hnames.1
          rw [List.forall_mem_cons] at h h'
          -- After the common name come the part and the further fields.
          have hitem : item.compact ++ fields.flatMap nextField
              = item'.compact ++ fields'.flatMap nextField := by
            simpa [nextField, fieldText] using heq
          rw [Item.compact_append_inj h.1 h'.1 (endsPart_fields fields)
            (endsPart_fields fields')] at hitem
          obtain rfl : item = item' := hitem.1
          rw [ih hnames.2 h.2 h'.2 hitem.2]

/-- Joined fields are fields after a comma each, but for the first comma. -/
theorem joined_fields (field : Text × Item) (fields : List (Text × Item)) :
    ", ".toList ++ ", ".toList.intercalate
        ((field :: fields).map fun field => fieldText field.1 field.2.compact)
      = (field :: fields).flatMap nextField := by
  rw [List.map_cons, intercalate_cons, List.flatMap_map, List.flatMap_cons, ← List.append_assoc]
  rfl

/-- The name of a record ends at the blank before the brace. -/
theorem name_eq_of_compact_eq {record record' : Record} (h : ' ' ∉ record.name)
    (h' : ' ' ∉ record'.name) (heq : record.compact = record'.compact) :
    record.name = record'.name := by
  have hbrace : " \x7b ".toList = ' ' :: "\x7b ".toList := by simp
  unfold compact at heq
  simp only [hbrace, List.append_assoc, List.cons_append] at heq
  exact ((separated_inj h h').mp heq).1

/-- Records with the same names are the same if they are written in the same way on one line. -/
theorem compact_inj {record record' : Record} (hname : record.name = record'.name)
    (hnames : record.fields.map Prod.fst = record'.fields.map Prod.fst)
    (h : ∀ field ∈ record.fields, field.2.Each Legible)
    (h' : ∀ field ∈ record'.fields, field.2.Each Legible) :
    record.compact = record'.compact ↔ record = record' := by
  refine ⟨fun heq => ?_, congrArg compact⟩
  obtain ⟨name, fields⟩ := record
  obtain ⟨name', fields'⟩ := record'
  obtain rfl : name = name' := hname
  suffices hfields : fields = fields' by rw [hfields]
  cases fields with
  | nil => exact (List.map_eq_nil_iff.mp hnames.symm).symm
  | cons field fields =>
      cases fields' with
      | nil => nomatch hnames
      | cons field' fields' =>
          -- The title and the brace at the end are the same.
          refine fields_inj hnames h h' ?_
          simp only [compact, List.append_assoc, List.append_right_inj, List.append_left_inj] at heq
          rw [← joined_fields, ← joined_fields, heq]

end Record

end Bytecode
