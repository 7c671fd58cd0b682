import LuaLang.Library.Builtin
import LuaLang.RuntimeError

/-!
# The machine

The state in which programs run: the tables and functions that exist, the global table, the
metatables that the values of a type share, the call stack, and what was printed. A host can add
functions of its own, made of procedures that share a memory.

## Main definitions

* `Host`: what a host brings along.
* `Machine`: the state.
* `Machine.enter`, `Machine.truncate`: pushing a frame within the limit, and dropping frames.
-/

namespace LuaLang

structure Host where
  /-- What functions of the host are made of. -/
  Procedure : Type
  /-- What functions of the host share. -/
  Memory : Type

inductive Code (H : Host) where
  | builtin (function : Builtin)
  | procedure (procedure : H.Procedure)

structure Function (H : Host) where
  name : String
  code : Code H

def Function.ofBuiltin {H : Host} (function : Builtin) : Function H :=
  ⟨function.name, .builtin function⟩

/-- The metatables that all values of a type share. Tables have their own, and nil has none. -/
structure SharedMetatables where
  boolean : Option TableId
  number : Option TableId
  string : Option TableId
  function : Option TableId

namespace SharedMetatables

def get (shared : SharedMetatables) : Kind → Option TableId
  | .boolean => shared.boolean
  | .number => shared.number
  | .string => shared.string
  | .function => shared.function
  | .nil | .table => none

/-- Changes nothing for a type that shares no metatable. -/
def set (shared : SharedMetatables) (kind : Kind) (metatable : Option TableId) :
    SharedMetatables :=
  match kind with
  | .boolean => { shared with boolean := metatable }
  | .number => { shared with number := metatable }
  | .string => { shared with string := metatable }
  | .function => { shared with function := metatable }
  | .nil | .table => shared

theorem get_set (shared : SharedMetatables) (kind other : Kind) (metatable : Option TableId)
    (h : kind ≠ .nil ∧ kind ≠ .table) :
    (shared.set kind metatable).get other =
      if other = kind then metatable else shared.get other := by
  cases kind <;> cases other <;> simp_all [set, get]

end SharedMetatables

/-- A way of dispatching that the machine prepares at its first use and then keeps. -/
inductive Slot where
  | index
  | newIndex
  /-- Calls with exactly so many arguments, up to three. -/
  | call (arity : Nat)
deriving DecidableEq, Repr

def Slot.all : List Slot :=
  [index, newIndex, call 0, call 1, call 2, call 3]

structure Machine (H : Host) where
  tables : Array Table
  functions : Array (Function H)
  /-- The table of global variables. -/
  globals : TableId
  shared : SharedMetatables
  /-- The ways of dispatching that were used so far. -/
  prepared : List Slot
  /-- The calls under way, the latest first. -/
  stack : List Frame
  /-- How many frames the stack may hold. -/
  maxDepth : Nat
  /-- What was printed. -/
  output : String
  memory : H.Memory

/-- How many frames the stack may hold unless said otherwise. -/
def defaultDepth : Nat := 200

namespace Machine

variable {H : Host}

/-! ## Tables and functions -/

def table (m : Machine H) (id : TableId) : Table :=
  m.tables.getD id.index .empty

def addTable (m : Machine H) (t : Table) : TableId × Machine H :=
  (⟨m.tables.size⟩, { m with tables := m.tables.push t })

def putTable (m : Machine H) (id : TableId) (t : Table) : Machine H :=
  { m with tables := m.tables.setIfInBounds id.index t }

/-- Puts a value under a key that is neither nil nor NaN. -/
def putEntry (m : Machine H) (id : TableId) (key value : Value) : Machine H :=
  { m with tables := m.tables.modify id.index (·.put key value) }

def setMetatable (m : Machine H) (id : TableId) (metatable : Option TableId) : Machine H :=
  { m with tables := m.tables.modify id.index ({ · with metatable }) }

def function? (m : Machine H) (id : FunctionId) : Option (Function H) :=
  m.functions[id.index]?

def functionName (m : Machine H) (id : FunctionId) : String :=
  match m.function? id with
  | some f => f.name
  | none => ""

def addFunction (m : Machine H) (f : Function H) : FunctionId × Machine H :=
  (⟨m.functions.size⟩, { m with functions := m.functions.push f })

/-! ## Dispatch -/

def prepare (m : Machine H) (slot : Slot) : Machine H :=
  if slot ∈ m.prepared then m else { m with prepared := slot :: m.prepared }

/-- How many ways of dispatching were used so far. -/
def populated (m : Machine H) : Nat :=
  Slot.all.countP (· ∈ m.prepared)

/-! ## The call stack -/

def depth (m : Machine H) : Nat :=
  m.stack.length

/-- Pushes a frame if there is room for it, and says whether there was. -/
def enter (m : Machine H) (frame : Frame) : Bool × Machine H :=
  if m.depth < m.maxDepth then (true, { m with stack := frame :: m.stack }) else (false, m)

theorem depth_enter_le (m : Machine H) (frame : Frame) (h : m.depth ≤ m.maxDepth) :
    (m.enter frame).2.depth ≤ m.maxDepth := by
  unfold enter
  split
  · simp only [depth, List.length_cons] at *
    omega
  · exact h

def leave (m : Machine H) : Machine H :=
  { m with stack := m.stack.tail }

def setLine (m : Machine H) (line : Nat) : Machine H :=
  { m with stack := m.stack.modifyHead ({ · with line }) }

/-- Drops the latest frames until at most `depth` are left. -/
def truncate (m : Machine H) (depth : Nat) : Machine H :=
  { m with stack := m.stack.drop (m.depth - depth) }

@[simp]
theorem stack_truncate_depth (m : Machine H) : (m.truncate m.depth).stack = m.stack := by
  simp [truncate]

theorem depth_truncate (m : Machine H) (depth : Nat) :
    (m.truncate depth).depth = min depth m.depth := by
  simp only [truncate, Machine.depth, List.length_drop]
  omega

/-! ## Start -/

/-- A machine with an empty global table and an empty metatable for each type that shares one. -/
def start (maxDepth : Nat) (memory : H.Memory) : Machine H :=
  { tables := Array.replicate 5 .empty
    functions := #[]
    globals := ⟨0⟩
    shared := ⟨some ⟨1⟩, some ⟨2⟩, some ⟨3⟩, some ⟨4⟩⟩
    prepared := []
    stack := []
    maxDepth
    output := ""
    memory }

def global (m : Machine H) (name : String) : Value :=
  (m.table m.globals).get (.string name)

def setGlobal (m : Machine H) (name : String) (value : Value) : Machine H :=
  m.putEntry m.globals (.string name) value

/-- Puts a function of the base library under its name into the globals. -/
def addBuiltin (m : Machine H) (function : Builtin) : Machine H :=
  let (id, m) := m.addFunction (.ofBuiltin function)
  m.setGlobal function.name (.function id)

def withLibrary (m : Machine H) : Machine H :=
  let m := Builtin.globals.foldl addBuiltin m
  let m := m.setGlobal "_G" (.table m.globals)
  m.setGlobal "_VERSION" (.string "Lua 5.1")

end Machine

end LuaLang
