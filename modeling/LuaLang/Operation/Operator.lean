import LuaLang.Operation.Index
import LuaLang.Operation.Arithmetic
import LuaLang.Operation.Comparison

/-!
# Operators at work

What each operator of the language does with operands that have been evaluated, and the text that
the language makes of a value.
-/

namespace LuaLang.Routine

variable {H : Host}

def unary (op : UnaryOp) (value : Value) : Routine H Value :=
  match op with
  | .negate => negate value
  | .not => return .boolean !value.truth
  | .length => length value

/-- `and` and `or` choose one of their operands. -/
def binary (op : BinaryOp) (left right : Value) : Routine H Value :=
  match op with
  | .or => return if left.truth then left else right
  | .and => return if left.truth then right else left
  | .equal => do return .boolean (← equal left right)
  | .notEqual => do return .boolean !(← equal left right)
  | .less => do return .boolean (← less left right)
  | .greater => do return .boolean (← less right left)
  | .lessEqual => do return .boolean (← lessEqual left right)
  | .greaterEqual => do return .boolean (← lessEqual right left)
  | .concat => concat left right
  | .add => arithmetic .add left right
  | .subtract => arithmetic .subtract left right
  | .multiply => arithmetic .multiply left right
  | .divide => arithmetic .divide left right
  | .mod => arithmetic .mod left right
  | .power => arithmetic .power left right

/-- What the language makes of a value where it wants text. A metamethod may give any value. -/
def toText (value : Value) : Routine H Value := do
  match ← metamethod value .toText with
  | some handler => return Value.first (← callPrepared 1 handler [value])
  | none => return .string value.display

end LuaLang.Routine
