import Bytecode.Text.Record

/-!
# `Bytecode.Proofs.Text.Parts`: taking a text apart

A text that was put together from parts can be taken apart again where its separators stand.

* `separated_inj`: a text splits in one way at the first separator.
* `intercalate_append_cons` finds a part among the parts that a text is joined from.
* `Record.render_leaf` is the place of a field in a record: what comes before it and after it is
  written in the same way, whatever the field says.
-/

set_option autoImplicit false

namespace Bytecode

/-- Two texts with the same separator in them are the same just if the parts before it are the same
and the parts after it. The separator is the first of its kind. -/
theorem separated_inj {α : Type} {separator : α} {before before' after after' : List α}
    (hfirst : separator ∉ before) (hfirst' : separator ∉ before') :
    before ++ separator :: after = before' ++ separator :: after'
      ↔ before = before' ∧ after = after' := by
  induction before generalizing before' with
  | nil =>
      cases before' with
      | nil => simp
      | cons c before' =>
          have hne : separator ≠ c := List.ne_of_not_mem_cons hfirst'
          simp [hne]
  | cons c before ih =>
      cases before' with
      | nil =>
          have hne : c ≠ separator := (List.ne_of_not_mem_cons hfirst).symm
          simp [hne]
      | cons c' before' =>
          have hrest := ih (List.not_mem_of_not_mem_cons hfirst)
            (List.not_mem_of_not_mem_cons hfirst')
          simp [hrest, and_assoc]

/-- In joined parts, each part after the first is preceded by the separator. -/
theorem intercalate_cons {α : Type} (separator part : List α) (after : List (List α)) :
    separator.intercalate (part :: after) = part ++ after.flatMap (separator ++ ·) := by
  induction after generalizing part with
  | nil => simp
  | cons next after ih => simp [List.intercalate_cons_cons, ih]

/-- Joined parts, taken apart at one of them: each part before it is followed by the separator, and
each part after it is preceded by the separator. -/
theorem intercalate_append_cons {α : Type} (separator part : List α)
    (before after : List (List α)) :
    separator.intercalate (before ++ part :: after)
      = before.flatMap (· ++ separator) ++ part ++ after.flatMap (separator ++ ·) := by
  induction before with
  | nil => simpa using intercalate_cons separator part after
  | cons first before ih =>
      -- Something comes after the first part, and so does a separator.
      cases before with
      | nil => simpa [List.intercalate_cons_cons] using ih
      | cons second before =>
          rw [List.cons_append, List.cons_append, List.intercalate_cons_cons, ← List.cons_append,
            ih]
          simp

namespace Record

/-- A field with a single leaf stands at its place in the record, and the text before it and after
it does not depend on the leaf. -/
theorem render_leaf (format : Format) (title name : Text) (before after : List (Text × Item)) :
    ∃ front back, ∀ text,
      (Record.mk title (before ++ (name, .leaf text) :: after)).render format
        = front ++ fieldText name text ++ back := by
  unfold render
  cases format.alternate with
  | false =>
      let write (field : Text × Item) : Text := fieldText field.1 field.2.compact
      refine ⟨title ++ " \x7b ".toList ++ (before.map write).flatMap (· ++ ", ".toList),
        (after.map write).flatMap (", ".toList ++ ·) ++ " \x7d".toList, fun text => ?_⟩
      show title ++ " \x7b ".toList
        ++ ", ".toList.intercalate ((before ++ (name, .leaf text) :: after).map write)
        ++ " \x7d".toList = _
      rw [List.map_append, List.map_cons, intercalate_append_cons]
      simp only [List.append_assoc]
      rfl
  | true =>
      let write (field : Text × Item) : Text := prettyLine 1 (fieldText field.1 (field.2.pretty 1))
      refine ⟨title ++ " \x7b\n".toList ++ before.flatMap write ++ indentation 1,
        ",\n".toList ++ after.flatMap write ++ "\x7d".toList, fun text => ?_⟩
      show title ++ " \x7b\n".toList ++ (before ++ (name, .leaf text) :: after).flatMap write
        ++ "\x7d".toList = _
      have hline : write (name, .leaf text)
          = indentation 1 ++ fieldText name text ++ ",\n".toList := rfl
      rw [List.flatMap_append, List.flatMap_cons, hline]
      simp only [List.append_assoc]

end Record

end Bytecode
