import LuaLang.Script.Operand

/-!
# Results of scripts

What actions give. A result that consists of values is shown only at the end, but one that looks
into a table or a list shows what it sees on the way.
-/

namespace LuaLang.Script

structure Dump where
  pairs : List (Shown × Shown)
  length : Nat
  isEmpty : Bool
  metatable : Shown

/-- A list of values in all ways that there are to look at it. -/
structure ListView where
  count : Nat
  nth : Shown
  element : Shown
  first : Shown
  prepended : List Shown
  skipped : List Shown
  all : List Shown

inductive Result (α : Type) where
  | nothing
  | value (value : α)
  | values (values : List α)
  | dump (dump : Dump)
  | view (view : ListView)
  /-- The values of each round of a loop. -/
  | rounds (rounds : List (List Shown))
  | inspection (value : Value) (outline : String)
  | frames (frames : List Frame)
  | text (text : String)

def Result.show : Result Value → Running (Result Shown)
  | nothing => return nothing
  | value v => do return value (← showValue v)
  | values vs => do return values (← showAll vs)
  | dump d => return dump d
  | view v => return view v
  | rounds rs => return rounds rs
  | inspection v outline => return inspection v outline
  | frames fs => return frames fs
  | text t => return text t

def showPair (pair : Value × Value) : Running (Shown × Shown) := do
  let key ← showValue pair.1
  return (key, ← showValue pair.2)

/-- Shows each key, then its value, then the metatable. -/
def dumpTable (id : TableId) : Running Dump := do
  let t ← tableAt id
  let pairs ← t.pairs.mapM showPair
  let metatable ← showValue (.ofTable? t.metatable)
  return ⟨pairs, t.length, t.isEmpty, metatable⟩

def viewList (values : List Value) (position : Nat) (value : Value) : Running ListView := do
  let nth ← showValue (Value.nth values position)
  let element ← showValue (Value.nth values position)
  let first ← showValue (Value.first values)
  let prepended ← showAll (value :: values)
  let skipped ← showAll (values.drop position)
  let all ← showAll values
  return ⟨values.length, nth, element, first, prepended, skipped, all⟩

end LuaLang.Script
