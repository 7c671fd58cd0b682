import LuaLang.Operation.Arithmetic
import LuaLang.Operator
import LuaLang.Value.Spread

/-!
# Scripts

A host drives the machine by a script: a list of steps, each of which does one thing and may keep
its result in a register. Functions of the host are scripts too, with steps that run when the
function is called and a list of results.

## Main definitions

* `Operand`, `Item`: what stands for a value, and for an expression of a list.
* `Action`: one thing to do.
* `Step`: an action, and where its result goes.
* `Procedure`: what a function of the host is made of.
-/

namespace LuaLang.Script

inductive Target where
  | nowhere
  | register (name : String)
  /-- A list of values is spread over some registers. -/
  | registers (names : List String)
deriving DecidableEq, Repr

inductive Route where
  | direct
  /-- Through the slot for the number of arguments. -/
  | byCount
  | prepared (arity : Nat)
  /-- The body of a function as it is, without a frame. -/
  | body
deriving DecidableEq, Repr

mutual

/-- What stands for a value. A table or a function is made anew each time. -/
inductive Operand where
  | constant (value : Value)
  | register (name : String)
  | global (name : String)
  /-- An argument of the running function, counted from zero. -/
  | argument (position : Nat)
  | table (items : List Operand) (pairs : List Pair) (metatable : Operand)
  | function (name : String) (steps : List Step) (results : List Item)

inductive Pair where
  | mk (key value : Operand)

/-- What stands for an expression of a list. -/
inductive Item where
  | one (operand : Operand)
  | many (operands : List Operand)
  /-- The arguments of the running function from a position on. -/
  | rest (start : Nat)

inductive Step where
  | mk (action : Action) (target : Target)

inductive Action where
  | keep (value : Operand)
  | get (table key : Operand)
  | contains (table key : Operand)
  | put (table key value : Operand)
  | tableLength (table : Operand)
  | isEmpty (table : Operand)
  | next (table key : Operand)
  | metatable (table : Operand)
  | setMetatable (table metatable : Operand)
  /-- Lists all that is in a table. -/
  | dump (table : Operand)
  /-- Sets all integer keys from one to another to one value. -/
  | fill (table : Operand) (first last : Int) (value : Operand)
  | index (base key : Operand) (prepared : Bool)
  | newIndex (base key value : Operand) (prepared : Bool)
  | call (callee : Operand) (arguments : List Item) (route : Route)
  | arithmetic (op : ArithmeticOp) (left right : Operand)
  | unary (op : UnaryOp) (value : Operand)
  | binary (op : BinaryOp) (left right : Operand)
  | rawEqual (left right : Operand)
  | metatableOf (value : Operand)
  | metavalue (value : Operand) (name : String)
  | toText (value : Operand)
  | inspect (value : Operand)
  | global (name : String)
  | setGlobal (name : String) (value : Operand)
  | sharedMetatable (type : String)
  | setSharedMetatable (type : String) (metatable : Operand)
  | populated
  | maxDepth
  | depth
  | summary
  | enter (frame : Frame)
  | leave
  | setLine (line : Nat)
  | truncate (depth : Nat)
  | stack
  | fail (message : String)
  | raise (value : Operand) (level unwind : Nat)
  | adjust (values : List Item) (count : Nat)
  | assign (slots : List Operand) (values : List Item) (start : Nat)
  | flatten (values : List Item)
  /-- Looks at a list of values in all ways that there are. -/
  | view (values : List Item) (position : Nat) (value : Operand)
  /-- A generic loop. -/
  | forEach (values : List Item) (names : List String) (body : List Step)

end

/-- What a function of the host is made of. -/
structure Procedure where
  steps : List Step
  results : List Item

end LuaLang.Script
