import LuaLang.Operation.Metamethod
import LuaLang.Value.Spread

/-!
# Calls

Functions are called in a native frame, and when they are through, with or without an error, the
stack is cut back to the depth it had. Any other value is called through its metamethod, which gets
the value as its first argument.

## Main definitions

* `Routine.call`: calls any value.
* `Routine.callPrepared`: calls with a fixed number of arguments.
* `Routine.callByCount`: calls through the slot for the number of arguments.
* `Routine.callHandler`: calls the metamethod of a binary operation.
-/

namespace LuaLang.Routine

variable {H : Host}

/-- How many metamethods are followed in a row. -/
def maxLinks : Nat := 100

def invokeBody (function : FunctionId) (arguments : List Value) : Routine H (List Value) :=
  invoke function arguments ofExcept

def callFunction (function : FunctionId) (arguments : List Value) : Routine H (List Value) := do
  let before ← depth
  enter (.native (← functionName function))
  let results ← (invokeBody function arguments).attempt
  truncate before
  ofExcept results

/-- Calls a value, looking at no more than `links` values on the way to a function. -/
def callWithin : Nat → Value → List Value → Routine H (List Value)
  | 0, _, _ => fault .callLoop
  | links + 1, callee, arguments =>
    match callee with
    | .function function => callFunction function arguments
    | callee => do
      match ← metamethod callee .call with
      | some handler => callWithin links handler (callee :: arguments)
      | none => fault (.unsupported .call callee.kind)

def call (callee : Value) (arguments : List Value) : Routine H (List Value) :=
  callWithin maxLinks callee arguments

/-- Calls a value with exactly `arity` arguments, cut or filled up with nil. -/
def callPrepared (arity : Nat) (callee : Value) (arguments : List Value) :
    Routine H (List Value) := do
  prepare (.call arity)
  call callee (Value.fit arity arguments)

/-- Calls a value through the slot for the number of arguments, as far as there is one. -/
def callByCount (callee : Value) (arguments : List Value) : Routine H (List Value) :=
  if arguments.length < 4 then callPrepared arguments.length callee arguments
  else call callee arguments

/-- Calls the metamethod of a binary operation, and keeps its first result. -/
def callHandler (handler left right : Value) : Routine H Value := do
  return Value.first (← callPrepared 2 handler [left, right])

end LuaLang.Routine
