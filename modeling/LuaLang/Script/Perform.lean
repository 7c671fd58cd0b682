import LuaLang.Operation.Operator
import LuaLang.Script.Result

/-!
# Actions at work

What each action of a script does on the machine. Operands are evaluated from left to right.

## Main definitions

* `Script.perform`: one action.
* `Script.performStep`: an action whose result is kept.
* `Procedure.body`: what a function of the host does.
-/

namespace LuaLang.Script

/-- Sets `count` integer keys from `first` on. -/
def fillKeys (id : TableId) (value : Value) (first : Int) : Nat → Running Unit
  | 0 => return
  | count + 1 => do
    setRaw id (.number (.ofInt first)) value
    fillKeys id value (first + 1) count

def callBy (route : Route) (callee : Value) (arguments : List Value) :
    Routine host (List Value) :=
  match route, callee with
  | .direct, callee => .call callee arguments
  | .byCount, callee => .callByCount callee arguments
  | .prepared arity, callee => .callPrepared arity callee arguments
  | .body, .function id => .invokeBody id arguments
  | .body, callee => .fault (.unsupported .call callee.kind)

/-- How many rounds a generic loop makes at most. -/
def maxRounds : Nat := 100

/-- The rounds of a generic loop: each calls the iterator with the state and the last key, and ends
the loop if that gives nil first. -/
def loop (iterator state : Value) (names : List String) (body : Running Unit) :
    Nat → Value → Running (List (List Shown))
  | 0, _ => return []
  | rounds + 1, key => do
    let results ← lift (.call iterator [state, key])
    let key := Value.first results
    if key.isNil then return []
    else
      let values := Value.fit names.length results
      let noted ← showAll values
      setRegisters names values
      body
      return noted :: (← loop iterator state names body rounds key)

/-- Keeps a result where it has to go. Only values and lists of values are kept. -/
def store (target : Target) (result : Result Value) : Running Unit :=
  match target, result with
  | .register name, .value value => setRegister name value
  | .register name, .values values => setRegister name (Value.first values)
  | .registers names, .values values => setRegisters names (Value.fit names.length values)
  | _, _ => return

def giving (routine : Routine host Value) : Running (Result Value) := do
  return .value (← lift routine)

def doing (routine : Routine host Unit) : Running (Result Value) := do
  lift routine
  return .nothing

/-- The metatable that all values of a type share, given the type's name. -/
def sharedMetatable (type : String) : Routine host Value :=
  match Kind.ofName? type with
  | some kind => do return .ofTable? (← .sharedMetatable kind)
  | none => return .nil

/-- Changes nothing if there is no type of that name. -/
def setSharedMetatable (type : String) (metatable : Option TableId) : Routine host Unit :=
  match Kind.ofName? type with
  | some kind => .request (.setSharedMetatable kind metatable)
  | none => return

def summary : Routine host String := do
  let globals ← .globals
  let populated : Nat ← .request .populated
  let stack ← .stack
  let maxDepth : Nat ← .request .maxDepth
  return Machine.summary globals populated stack maxDepth

mutual

def perform : Action → Running (Result Value)
  | .keep value => do return .value (← evaluate value)
  | .get table key => do
    let id ← tableOf table
    let key ← evaluate key
    return .value ((← tableAt id).get key)
  | .contains table key => do
    let id ← tableOf table
    let key ← evaluate key
    return .value (.boolean ((← tableAt id).contains key))
  | .put table key value => do
    let id ← tableOf table
    let key ← evaluate key
    setRaw id key (← evaluate value)
    return .nothing
  | .tableLength table => do
    let id ← tableOf table
    return .value (.ofNat (← tableAt id).length)
  | .isEmpty table => do
    let id ← tableOf table
    return .value (.boolean (← tableAt id).isEmpty)
  | .next table key => do
    let id ← tableOf table
    let key ← evaluate key
    match (← tableAt id).next key with
    | .ok (some (key, value)) => return .values [key, value]
    | .ok none => return .nothing
    | .error e => throw e
  | .metatable table => do
    let id ← tableOf table
    return .value (.ofTable? (← tableAt id).metatable)
  | .setMetatable table metatable => do
    let id ← tableOf table
    doing (.setMetatable id (← evaluate metatable).table?)
  | .dump table => do
    return .dump (← dumpTable (← tableOf table))
  | .fill table first last value => do
    let id ← tableOf table
    fillKeys id (← evaluate value) first (last - first + 1).toNat
    return .value (.ofNat (← tableAt id).length)
  | .index base key prepared => do
    let base ← evaluate base
    let key ← evaluate key
    giving (if prepared then .indexPrepared base key else .index base key)
  | .newIndex base key value prepared => do
    let base ← evaluate base
    let key ← evaluate key
    let value ← evaluate value
    doing (if prepared then .newIndexPrepared base key value else .newIndex base key value)
  | .call callee arguments route => do
    let callee ← evaluate callee
    let arguments ← evaluateList arguments
    return .values (← lift (callBy route callee arguments))
  | .arithmetic op left right => do
    let left ← evaluate left
    giving (.arithmetic op left (← evaluate right))
  | .unary op value => do
    giving (.unary op (← evaluate value))
  | .binary op left right => do
    let left ← evaluate left
    giving (.binary op left (← evaluate right))
  | .rawEqual left right => do
    let left ← evaluate left
    return .value (.boolean (left.rawEqual (← evaluate right)))
  | .metatableOf value => do
    return .value (.ofTable? (← lift (.metatableOf (← evaluate value))))
  | .metavalue value name => do
    return .value (.ofOption (← lift (.metavalue (← evaluate value) name)))
  | .toText value => do
    giving (.toText (← evaluate value))
  | .inspect value => do
    let value ← evaluate value
    return .inspection value (← lift (.request (.outline value)))
  | .global name => do
    return .value (← evaluate (.global name))
  | .setGlobal name value => do
    let globals ← lift .globals
    setRaw globals (.string name) (← evaluate value)
    return .nothing
  | .sharedMetatable type =>
    giving (sharedMetatable type)
  | .setSharedMetatable type metatable => do
    doing (setSharedMetatable type (← evaluate metatable).table?)
  | .populated => do
    return .value (.ofNat (← lift (.request .populated)))
  | .maxDepth => do
    return .value (.ofNat (← lift (.request .maxDepth)))
  | .depth => do
    return .value (.ofNat (← lift .depth))
  | .summary => do
    return .text (← lift summary)
  | .enter frame => doing (.enter frame)
  | .leave => doing (.request .leave)
  | .setLine line => doing (.request (.setLine line))
  | .truncate depth => doing (.truncate depth)
  | .stack => do
    return .frames (← lift .stack)
  | .fail message => doing (.failWith message)
  | .raise value level unwind => do
    let value ← evaluate value
    let e := RuntimeError.ofValue (← lift .stack) value level
    doing (.fail (e.unwind unwind))
  | .adjust values count => do
    return .values (Spread.adjust (← evaluateItems values) count)
  | .assign slots values start => do
    let slots ← evaluateAll slots []
    return .values (Spread.assign slots (← evaluateItems values) start)
  | .flatten values => do
    return .values (← evaluateList values)
  | .view values position value => do
    let values ← evaluateList values
    return .view (← viewList values position (← evaluate value))
  | .forEach values names body => do
    let parts := Spread.adjust (← evaluateItems values) 3
    return .rounds (← loop (Value.nth parts 0) (Value.nth parts 1) names (performAll body) maxRounds
      (Value.nth parts 2))

def performStep : Step → Running (Result Value)
  | .mk action target => do
    let result ← perform action
    store target result
    return result

def performAll : List Step → Running Unit
  | [] => return
  | step :: rest => do
    let _ ← performStep step
    performAll rest

end

/-- Runs the steps of a function, then gives its results. -/
def Procedure.perform (p : Procedure) : Running (List Value) := do
  performAll p.steps
  evaluateList p.results

/-- What a function of the host does. A key that a table cannot have is a fault of the function. -/
def Procedure.body (p : Procedure) (arguments : List Value) : Routine host (List Value) := do
  match ← (p.perform arguments).run with
  | .ok results => return results
  | .error e => .fault (.badKey e)

end LuaLang.Script
