import Bytecode.Pool.Basic
import Bytecode.Window

/-!
# `Bytecode.Pool.Command`: requests to a pool

Everything that can be asked of a pool is a `Pool.Command`, so a history of a pool is a list of
commands. Only `push` and `release` change the pool.
-/

set_option autoImplicit false

namespace Bytecode.Pool

/-- A request to a pool. -/
inductive Command where
  | push (value : Value)
  | release
  | get (index : Nat)
  | equalAt (first second : Nat)
  | values (window : Window)
  | isEmpty
  | dump (format : Format)
  deriving DecidableEq

/-- What a pool answers when it does not refuse. -/
inductive Answer where
  | done
  | value (value : Value)
  | truth (holds : Bool)
  | values (values : List Value)
  | text (text : Text)
  deriving DecidableEq

/-- Carries out a command. -/
def perform (settings : Settings) (pool : Pool) : Command → Outcome Pool Answer
  | .push value => (pool.push settings value).map fun _ => .done
  | .release => (pool.release settings).map fun _ => .done
  | .get index => .read pool ((pool.get index).map .value)
  | .equalAt first second => .read pool ((pool.equalAt first second).map .truth)
  | .values window => .ok pool (.values (window.view pool.values.items))
  | .isEmpty => .ok pool (.truth pool.isEmpty)
  | .dump format => .ok pool (.text (pool.dump format))

end Bytecode.Pool
