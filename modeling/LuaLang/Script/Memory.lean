import LuaLang.Machine.Routine
import LuaLang.Script.Basic

/-!
# What scripts remember

Scripts share registers, and they give numbers to the tables and functions that they show, so that
reports say which are the same without giving anything away about where they live.

## Main definitions

* `Script.Memory`: registers and handles.
* `Shown`, `Handles.show`: a value as it is shown, with a number for its identity.
-/

namespace LuaLang.Script

/-- A value as it is shown. -/
inductive Shown where
  | nil
  | boolean (b : Bool)
  | number (x : Number)
  | string (s : String)
  | table (handle : Nat)
  | function (handle : Nat) (name : String)
deriving DecidableEq, Repr

/-- The tables and functions that were shown, in the order of first sight. -/
structure Handles where
  tables : List TableId := []
  functions : List FunctionId := []

/-- The number of a member, counted from one; a new member comes last. -/
def number {α : Type} [DecidableEq α] (members : List α) (a : α) : Nat × List α :=
  match members.idxOf? a with
  | some position => (position + 1, members)
  | none => (members.length + 1, members ++ [a])

/-- A value as it is shown, and the handles after it. Functions are shown with their names. -/
def Handles.show (nameOf : FunctionId → String) (h : Handles) : Value → Shown × Handles
  | .nil => (.nil, h)
  | .boolean b => (.boolean b, h)
  | .number x => (.number x, h)
  | .string s => (.string s, h)
  | .table id =>
    let (handle, tables) := number h.tables id
    (.table handle, { h with tables })
  | .function id =>
    let (handle, functions) := number h.functions id
    (.function handle (nameOf id), { h with functions })

structure Memory where
  registers : Std.HashMap String Value := {}
  handles : Handles := {}

def host : Host where
  Procedure := Procedure
  Memory := Memory

/-- Registers that were never set hold nil. -/
def Memory.register (m : Memory) (name : String) : Value :=
  m.registers.getD name .nil

def Memory.setRegister (m : Memory) (name : String) (value : Value) : Memory :=
  { m with registers := m.registers.insert name value }

end LuaLang.Script
