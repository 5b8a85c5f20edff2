import Bytecode.Binary64.Text

/-!
# `Bytecode.Value`: the values a program computes with

A value is a boolean, nil or a number. `==` compares as the running program does: values of
different kinds are never equal, and numbers compare by IEEE equality. The identity of values,
kind and bits, is `=`.
-/

set_option autoImplicit false

namespace Bytecode

/-- A value of the running program. -/
inductive Value where
  | bool (b : Bool)
  | nil
  | number (x : Binary64)
  deriving DecidableEq

namespace Value

/-- A value that nothing has been assigned to is nil. -/
instance : Inhabited Value := ⟨nil⟩

instance : Coe Bool Value := ⟨bool⟩

instance : Coe Binary64 Value := ⟨number⟩

/-- Values are equal if they are of one kind and equal in it. -/
instance : BEq Value where
  beq
    | bool a, bool b => a == b
    | nil, nil => true
    | number x, number y => x == y
    | _, _ => false

/-- The value written in the given format: booleans as words and numbers as numbers. Nil is
always the bare word. -/
def text (format : Format) : Value → Text
  | bool b => format.word (if b then "true".toList else "false".toList)
  | nil => "nil".toList
  | number x => x.text format

/-- The dump of a value is its text. -/
def dump (format : Format) (value : Value) : Text := value.text format

@[simp] theorem dump_eq_text : dump = text := rfl

end Value

end Bytecode
