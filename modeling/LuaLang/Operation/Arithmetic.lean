import LuaLang.Operation.Call

/-!
# Arithmetic, length and concatenation

Each operator works on numbers or strings by itself, and asks for a metamethod only when it has to.
If there is none, the first operand that it cannot work on is to blame.
-/

namespace LuaLang

inductive ArithmeticOp where
  | add | subtract | multiply | divide | mod | power
deriving DecidableEq, Repr

namespace ArithmeticOp

def metamethod : ArithmeticOp → Metamethod
  | add => .add
  | subtract => .subtract
  | multiply => .multiply
  | divide => .divide
  | mod => .mod
  | power => .power

/-- The result on two numbers. The remainder has the sign of the divisor. -/
def apply : ArithmeticOp → Number → Number → Number
  | add, x, y => x + y
  | subtract, x, y => x - y
  | multiply, x, y => x * y
  | divide, x, y => x / y
  | mod, x, y => x - (x / y).floor * y
  | power, x, y => x ^ y

end ArithmeticOp

namespace Routine

variable {H : Host}

/-- Calls the metamethod of one of two operands. If neither has one, the blame is on the left
operand, unless that one is fine. -/
def applyHandler (method : Metamethod) (purpose : Purpose) (left right : Value) (leftFine : Bool) :
    Routine H Value := do
  match ← eitherMetamethod left right method with
  | some handler => callHandler handler left right
  | none => fault (.unsupported purpose (if leftFine then right else left).kind)

/-- An arithmetic operator. Strings that read as numbers count as numbers. -/
def arithmetic (op : ArithmeticOp) (left right : Value) : Routine H Value :=
  match left.toNumber?, right.toNumber? with
  | some x, some y => return .number (op.apply x y)
  | x, _ => applyHandler op.metamethod .arithmetic left right x.isSome

def negate (value : Value) : Routine H Value :=
  match value.toNumber? with
  | some x => return .number (-x)
  | none => do
    match ← metamethod value .negate with
    | some handler => callHandler handler value value
    | none => fault (.unsupported .arithmetic value.kind)

/-- `#value`: the characters of a string, a border of a table. -/
def length (value : Value) : Routine H Value :=
  match value with
  | .string s => return .ofNat s.length
  | .table id => do return .ofNat (← table id).length
  | value => do
    match ← metamethod value .length with
    | some handler => callHandler handler value .nil
    | none => fault (.unsupported .length value.kind)

/-- `left .. right`. Numbers count as their texts. -/
def concat (left right : Value) : Routine H Value :=
  match left.toText?, right.toText? with
  | some s, some t => return .string (s ++ t)
  | s, _ => applyHandler .concat .concatenate left right s.isSome

end Routine

end LuaLang
