import LuaLang.Operation.Call

/-!
# Comparison

Numbers and strings have an order of their own. Other values are compared by a metamethod, and only
if they are of one type and both have the very same one.

## Main definitions

* `Routine.less`, `Routine.lessEqual`: the order.
* `Routine.equal`: equality, which never fails for want of a metamethod.
-/

namespace LuaLang.Routine

variable {H : Host}

/-- Asks a metamethod that both values have. -/
def compareBy (method : Metamethod) (left right : Value) : Routine H (Option Bool) := do
  match ← sharedMetamethod left right method with
  | some handler => return some (← callHandler handler left right).truth
  | none => return none

/-- Asks a metamethod that both values have, if they are of one type. -/
def compareAlike (method : Metamethod) (left right : Value) : Routine H (Option Bool) :=
  if left.kind = right.kind then compareBy method left right else return none

def less (left right : Value) : Routine H Bool :=
  match left, right with
  | .number x, .number y => return x.less y
  | .string s, .string t => return s < t
  | left, right => do
    match ← compareAlike .less left right with
    | some answer => return answer
    | none => fault (.incomparable left.kind right.kind)

/-- `left <= right`. Without a metamethod for it, this is `not (right < left)`. -/
def lessEqual (left right : Value) : Routine H Bool :=
  match left, right with
  | .number x, .number y => return x.lessEqual y
  | .string s, .string t => return !(t < s : Bool)
  | left, right => do
    match ← compareAlike .lessEqual left right with
    | some answer => return answer
    | none =>
      match ← compareAlike .less right left with
      | some answer => return !answer
      | none => fault (.incomparable left.kind right.kind)

/-- `left == right`. Values of different types are not equal, and raw equal values are. -/
def equal (left right : Value) : Routine H Bool :=
  if left.kind ≠ right.kind then return false
  else if left.rawEqual right then return true
  else do return (← compareBy .equal left right).getD false

end LuaLang.Routine
