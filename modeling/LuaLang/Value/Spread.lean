import LuaLang.Value.Basic

/-!
# Lists of values

Functions take and give lists of values. A list of expressions may hold one that stands for any
number of values, such as a call: in the last place it gives all of them, and anywhere else only its
first one.

## Main definitions

* `Value.nth`, `Value.first`, `Value.fit`: reading past the end of a list gives nil.
* `Spread.flatten`: all values of a list of expressions.
* `Spread.assign`: puts the values of a list of expressions into slots.
* `Spread.adjust`: exactly so many values.
-/

namespace LuaLang

namespace Value

def nth (values : List Value) (position : Nat) : Value :=
  values.getD position nil

/-- The first value, nil if there is none. -/
def first (values : List Value) : Value :=
  values.headD nil

/-- The first `count` values, filled up with nil. -/
def fit (count : Nat) (values : List Value) : List Value :=
  values.take count ++ List.replicate (count - values.length) nil

@[simp]
theorem length_fit (count : Nat) (values : List Value) : (fit count values).length = count := by
  simp only [fit, List.length_append, List.length_take, List.length_replicate]
  omega

end Value

/-- What one expression of a list stands for. -/
inductive Spread where
  | one (value : Value)
  | many (values : List Value)
deriving DecidableEq, Repr

namespace Spread

/-- What is left of an expression that is not in the last place. -/
def first : Spread → Value
  | one value => value
  | many values => Value.first values

/-- All values of a list of expressions. -/
def flatten : List Spread → List Value
  | [] => []
  | [one value] => [value]
  | [many values] => values
  | spread :: rest => spread.first :: flatten rest

/-- Puts values into slots from the first slot on. Slots that are left over stay, and values that
are left over are dropped. -/
def fill : List Value → List Value → List Value
  | slots, [] => slots
  | [], _ => []
  | _ :: slots, value :: values => value :: fill slots values

@[simp]
theorem length_fill (slots values : List Value) : (fill slots values).length = slots.length := by
  fun_induction fill slots values <;> simp_all

/-- Puts the values of a list of expressions into slots from the first slot on. -/
def assignFront : List Value → List Spread → List Value
  | slots, [] => slots
  | [], _ => []
  | slots, [many values] => fill slots values
  | _ :: slots, spread :: rest => spread.first :: assignFront slots rest

@[simp]
theorem length_assignFront (slots : List Value) (values : List Spread) :
    (assignFront slots values).length = slots.length := by
  fun_induction assignFront slots values <;> simp_all

/-- Puts the values of a list of expressions into slots from the slot `start` on. -/
def assign (slots : List Value) (values : List Spread) (start : Nat) : List Value :=
  slots.take start ++ assignFront (slots.drop start) values

@[simp]
theorem length_assign (slots : List Value) (values : List Spread) (start : Nat) :
    (assign slots values start).length = slots.length := by
  simp only [assign, List.length_append, List.length_take, length_assignFront, List.length_drop]
  omega

/-- The values of a list of expressions, cut or filled up with nil to exactly `count` of them. -/
def adjust (values : List Spread) (count : Nat) : List Value :=
  assign (List.replicate count .nil) values 0

end Spread

end LuaLang
