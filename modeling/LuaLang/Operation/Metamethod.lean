import LuaLang.Machine.Routine
import LuaLang.Operator

/-!
# Metamethods

An operation that a value does not support by itself can be given by a function in its metatable,
under a name that belongs to the operation.

## Main definitions

* `Metamethod`: the operations that can be given, and their names.
* `Routine.metatableOf`: the metatable of a value.
* `Routine.metamethod`: the handler of a value for an operation.
* `Routine.sharedMetamethod`: the handler, if two values have the same one.
-/

namespace LuaLang

inductive Metamethod where
  | index | newIndex | call | toText
  | add | subtract | multiply | divide | mod | power | negate
  | length | concat | equal | less | lessEqual
deriving DecidableEq, Repr

def Metamethod.name : Metamethod → String
  | index => "__index"
  | newIndex => "__newindex"
  | call => "__call"
  | toText => "__tostring"
  | add => "__add"
  | subtract => "__sub"
  | multiply => "__mul"
  | divide => "__div"
  | mod => "__mod"
  | power => "__pow"
  | negate => "__unm"
  | length => "__len"
  | concat => "__concat"
  | equal => "__eq"
  | less => "__lt"
  | lessEqual => "__le"

namespace Routine

variable {H : Host}

/-- The metatable of a value: its own for a table, otherwise the one that its type shares. -/
def metatableOf (value : Value) : Routine H (Option TableId) :=
  match value with
  | .table id => do return (← table id).metatable
  | value => sharedMetatable value.kind

/-- What the metatable of a value has under a name, if that is not nil. -/
def metavalue (value : Value) (name : String) : Routine H (Option Value) := do
  match ← metatableOf value with
  | none => return none
  | some id =>
    let handler := (← table id).get (.string name)
    return if handler.isNil then none else some handler

def metamethod (value : Value) (method : Metamethod) : Routine H (Option Value) :=
  metavalue value method.name

/-- The handler of the left value, or else of the right one. -/
def eitherMetamethod (left right : Value) (method : Metamethod) : Routine H (Option Value) := do
  match ← metamethod left method with
  | some handler => return some handler
  | none => metamethod right method

/-- The handler for an operation, if both values have the very same one. -/
def sharedMetamethod (left right : Value) (method : Metamethod) : Routine H (Option Value) := do
  match ← metamethod left method with
  | none => return none
  | some handler =>
    match ← metamethod right method with
    | none => return none
    | some other => return if handler.rawEqual other then some handler else none

end Routine

end LuaLang
