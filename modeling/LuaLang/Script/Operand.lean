import LuaLang.Script.Memory

/-!
# Operands at work

What runs as a part of a script, and the values that operands stand for. Something wrong with the
key of a raw table access is an error of its own, next to runtime errors.

## Main definitions

* `Script.Running`: what runs as a part of a script.
* `Script.evaluate`, `Script.evaluateList`: the value of an operand, the values of a list.
-/

namespace LuaLang.Script

/-- What runs as a part of a script, given the arguments of the running function. -/
abbrev Running := ReaderT (List Value) (ExceptT TableError (Routine host))

def lift {α : Type} (routine : Routine host α) : Running α :=
  fun _ => ExceptT.lift routine

def arguments : Running (List Value) :=
  fun arguments => pure arguments

def tableAt (id : TableId) : Running Table :=
  lift (.table id)

def setRaw (id : TableId) (key value : Value) : Running Unit := do
  match ← lift (.set id key value) with
  | .ok () => return
  | .error e => throw e

/-! ## Registers and handles -/

def getMemory : Running Memory :=
  lift (.request .memory)

def setMemory (memory : Memory) : Running Unit :=
  lift (.request (.setMemory memory))

def setRegister (name : String) (value : Value) : Running Unit := do
  setMemory ((← getMemory).setRegister name value)

/-- Gives values to registers, as far as there are both. -/
def setRegisters : List String → List Value → Running Unit
  | name :: names, value :: values => do
    setRegister name value
    setRegisters names values
  | _, _ => return

def nameOf : Value → Running String
  | .function id => lift (.functionName id)
  | _ => return ""

def showValue (value : Value) : Running Shown := do
  let name ← nameOf value
  let memory ← getMemory
  let (shown, handles) := memory.handles.show (fun _ => name) value
  setMemory { memory with handles }
  return shown

def showAll (values : List Value) : Running (List Shown) :=
  values.mapM showValue

/-! ## Operands -/

mutual

def evaluate : Operand → Running Value
  | .constant value => return value
  | .register name => do return (← getMemory).register name
  | .global name => do
    let globals ← lift .globals
    return (← tableAt globals).get (.string name)
  | .argument position => do return Value.nth (← arguments) position
  | .table items pairs metatable => do
    let id ← lift (.addTable (.ofList (← evaluateAll items [])))
    setPairs id pairs
    let metatable ← evaluate metatable
    lift (.setMetatable id metatable.table?)
    return .table id
  | .function name steps results => do
    let id ← lift (.addFunction ⟨name, .procedure ⟨steps, results⟩⟩)
    return .function id

/-- The values of some operands, behind those that are done, of which the latest is first. -/
def evaluateAll : List Operand → List Value → Running (List Value)
  | [], done => return done.reverse
  | operand :: rest, done => do
    let value ← evaluate operand
    evaluateAll rest (value :: done)

def setPairs (id : TableId) : List Pair → Running Unit
  | [] => return
  | .mk key value :: rest => do
    let key ← evaluate key
    let value ← evaluate value
    setRaw id key value
    setPairs id rest

end

def evaluateItem : Item → Running Spread
  | .one operand => do return .one (← evaluate operand)
  | .many operands => do return .many (← evaluateAll operands [])
  | .rest start => do return .many ((← arguments).drop start)

def evaluateItems (items : List Item) : Running (List Spread) :=
  items.mapM evaluateItem

def evaluateList (items : List Item) : Running (List Value) := do
  return Spread.flatten (← evaluateItems items)

def tableOf (operand : Operand) : Running TableId := do
  match ← evaluate operand with
  | .table id => return id
  | value => lift (.fault (.unsupported .index value.kind))

end LuaLang.Script
