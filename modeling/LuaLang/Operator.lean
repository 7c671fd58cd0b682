import LuaLang.Token.Symbol

/-!
# Operators

The operators of expressions and how tightly they bind. A binary operator has a power on each side:
it takes over an expression that stands in a place of lower power than its left one, and its right
operand is a place of its right power. Equal powers group to the left; a right power below the left
one groups to the right.
-/

namespace LuaLang

inductive UnaryOp where
  | negate | not | length
deriving DecidableEq, Repr

inductive BinaryOp where
  | or | and
  | equal | notEqual | less | greater | lessEqual | greaterEqual
  | concat
  | add | subtract | multiply | divide | mod | power
deriving DecidableEq, Repr

namespace UnaryOp

def all : List UnaryOp := [negate, not, length]

def symbol : UnaryOp → Symbol
  | negate => .minus
  | not => .notWord
  | length => .hash

def text (op : UnaryOp) : String := op.symbol.text

/-- The operator that a symbol is in front of an operand. -/
def ofSymbol? (symbol : Symbol) : Option UnaryOp :=
  all.find? (·.symbol = symbol)

def label : UnaryOp → String
  | negate => "Negate"
  | not => "Not"
  | length => "Length"

def ofLabel? (label : String) : Option UnaryOp :=
  all.find? (·.label = label)

/-- The power of the operand's place, above all binary operators but the highest one. -/
def power : Nat := 8

end UnaryOp

namespace BinaryOp

def all : List BinaryOp :=
  [or, and, equal, notEqual, less, greater, lessEqual, greaterEqual, concat, add, subtract,
    multiply, divide, mod, power]

def symbol : BinaryOp → Symbol
  | or => .orWord
  | and => .andWord
  | equal => .equalEqual
  | notEqual => .tildeEqual
  | less => .less
  | greater => .greater
  | lessEqual => .lessEqual
  | greaterEqual => .greaterEqual
  | concat => .dotDot
  | add => .plus
  | subtract => .minus
  | multiply => .star
  | divide => .slash
  | mod => .percent
  | power => .caret

def text (op : BinaryOp) : String := op.symbol.text

/-- The operator that a symbol is between two operands. -/
def ofSymbol? (symbol : Symbol) : Option BinaryOp :=
  all.find? (·.symbol = symbol)

def label : BinaryOp → String
  | or => "Or"
  | and => "And"
  | equal => "Equal"
  | notEqual => "NotEqual"
  | less => "Less"
  | greater => "Greater"
  | lessEqual => "LessEqual"
  | greaterEqual => "GreaterEqual"
  | concat => "Concat"
  | add => "Add"
  | subtract => "Subtract"
  | multiply => "Multiply"
  | divide => "Divide"
  | mod => "Mod"
  | power => "Power"

def ofLabel? (label : String) : Option BinaryOp :=
  all.find? (·.label = label)

/-- The power with which an operator takes over the expression on its left. -/
def leftPower : BinaryOp → Nat
  | or => 1
  | and => 2
  | equal | notEqual | less | greater | lessEqual | greaterEqual => 3
  | concat => 5
  | add | subtract => 6
  | multiply | divide | mod => 7
  | power => 9

/-- The power of the place on the right of an operator. -/
def rightPower : BinaryOp → Nat
  | or => 1
  | and => 2
  | equal | notEqual | less | greater | lessEqual | greaterEqual => 3
  | concat => 4
  | add | subtract => 6
  | multiply | divide | mod => 7
  | power => 8

end BinaryOp

end LuaLang
