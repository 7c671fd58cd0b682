import LuaLang.Machine.Outline

/-!
# Requests

Everything that a routine can ask of the machine. A request is answered at once, and neither calls a
function nor fails; calls and errors are the routine's own steps.

## Main definitions

* `Request`, `Request.Answer`: what can be asked, and the type of the answer.
* `Machine.perform`: the answer, and the machine after it.
-/

namespace LuaLang

/-- What a routine can ask of the machine. -/
inductive Request (H : Host) where
  | table (id : TableId)
  | addTable (table : Table)
  /-- Puts a value under a key, if nothing is wrong with the key. -/
  | set (id : TableId) (key value : Value)
  | setMetatable (id : TableId) (metatable : Option TableId)
  | functionName (id : FunctionId)
  | addFunction (function : Function H)
  | globals
  | sharedMetatable (kind : Kind)
  | setSharedMetatable (kind : Kind) (metatable : Option TableId)
  | prepare (slot : Slot)
  | populated
  | stack
  | maxDepth
  /-- Pushes a frame if there is room for it. -/
  | enter (frame : Frame)
  | leave
  | setLine (line : Nat)
  | truncate (depth : Nat)
  | print (text : String)
  | memory
  | setMemory (memory : H.Memory)
  /-- Writes a value out with all that is in it. -/
  | outline (value : Value)

def Request.Answer {H : Host} : Request H → Type
  | table _ => Table
  | addTable _ => TableId
  | set .. => Except TableError Unit
  | functionName _ => String
  | addFunction _ => FunctionId
  | globals => TableId
  | sharedMetatable _ => Option TableId
  | populated => Nat
  | stack => List Frame
  | maxDepth => Nat
  | enter _ => Bool
  | memory => H.Memory
  | outline _ => String
  | setMetatable .. | setSharedMetatable .. | prepare _ | leave | setLine _ | truncate _ | print _
  | setMemory _ => Unit

def Machine.perform {H : Host} (m : Machine H) : (request : Request H) → request.Answer × Machine H
  | .table id => (m.table id, m)
  | .addTable table => m.addTable table
  | .set id key value =>
    match Table.keyFault? key with
    | some e => (.error e, m)
    | none => (.ok (), m.putEntry id key value)
  | .setMetatable id metatable => ((), m.setMetatable id metatable)
  | .functionName id => (m.functionName id, m)
  | .addFunction function => m.addFunction function
  | .globals => (m.globals, m)
  | .sharedMetatable kind => (m.shared.get kind, m)
  | .setSharedMetatable kind metatable => ((), { m with shared := m.shared.set kind metatable })
  | .prepare slot => ((), m.prepare slot)
  | .populated => (m.populated, m)
  | .stack => (m.stack, m)
  | .maxDepth => (m.maxDepth, m)
  | .enter frame => m.enter frame
  | .leave => ((), m.leave)
  | .setLine line => ((), m.setLine line)
  | .truncate depth => ((), m.truncate depth)
  | .print text => ((), { m with output := m.output ++ text })
  | .memory => (m.memory, m)
  | .setMemory memory => ((), { m with memory })
  | .outline value => (m.outline value, m)

end LuaLang
