import Bytecode.Text.Format

/-!
# `Bytecode.Text.Record`: records and lists of written items

A dump of a data structure is a `Record` of named fields or a bare list, whose leaves are
already written. Each has two renderings with the same leaves in the same order:

* `compact`, on one line, with a comma and a blank between neighbours;
* `pretty`, with every field and element on a line of its own, four blanks deeper than what
  encloses it, and a comma after each. A list without elements stays `[]`.
-/

set_option autoImplicit false

namespace Bytecode

/-- A part of a dump: a single written leaf, or a list of written leaves. -/
inductive Item where
  | leaf (text : Text)
  | list (elements : List Text)

/-- A named record of named parts, in their order. -/
structure Record where
  name : Text
  fields : List (Text × Item)

/-- The blanks before a line that is `depth` levels deep. -/
def indentation (depth : Nat) : Text := List.replicate (4 * depth) ' '

/-- A line of a pretty rendering: indented, and closed with a comma. -/
def prettyLine (depth : Nat) (text : Text) : Text :=
  indentation depth ++ text ++ ",\n".toList

namespace Item

/-- The rendering of a part on one line. -/
def compact : Item → Text
  | leaf text => text
  | list elements => "[".toList ++ ", ".toList.intercalate elements ++ "]".toList

/-- The rendering of a part that stands `depth` levels deep, with each element of a list on its
own line. -/
def pretty (depth : Nat) : Item → Text
  | leaf text => text
  | list [] => "[]".toList
  | list elements =>
      "[\n".toList ++ elements.flatMap (prettyLine (depth + 1)) ++ indentation depth ++ "]".toList

/-- The rendering of a part that the format asks for. -/
def render (format : Format) (item : Item) : Text :=
  if format.alternate then item.pretty 0 else item.compact

end Item

/-- A field: its name, a colon, and its written part. -/
def fieldText (name part : Text) : Text := name ++ ": ".toList ++ part

namespace Record

/-- The rendering of a record on one line. -/
def compact (record : Record) : Text :=
  record.name ++ " \x7b ".toList
    ++ ", ".toList.intercalate (record.fields.map fun field => fieldText field.1 field.2.compact)
    ++ " \x7d".toList

/-- The rendering of a record with each field on its own line. -/
def pretty (record : Record) : Text :=
  record.name ++ " \x7b\n".toList
    ++ record.fields.flatMap (fun field => prettyLine 1 (fieldText field.1 (field.2.pretty 1)))
    ++ "\x7d".toList

/-- The rendering of a record that the format asks for. -/
def render (format : Format) (record : Record) : Text :=
  if format.alternate then record.pretty else record.compact

end Record

end Bytecode
