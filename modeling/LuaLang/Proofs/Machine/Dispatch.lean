import Mathlib
import LuaLang.Operation.Call

/-!
# What a call comes to

Looking for a metamethod changes nothing, so what a routine finds out step by step can be read off
the machine at once. In the same way one can tell which function the call of a value comes to, and
with which arguments.

## Main definitions

* `Machine.metamethod`: the handler of a value for an operation.
* `Machine.callee?`: the function that a call comes to.
* `Machine.callOnce`: what comes of the call of a function.
* `Routine.callThrough`: the call of a value that is not a function.
-/

namespace LuaLang

variable {H : Host} {m : Machine H}

namespace Machine

/-- The metatable of a value: its own for a table, otherwise the one that its type shares. -/
def metatableOf (m : Machine H) : Value → Option TableId
  | .table id => (m.table id).metatable
  | value => m.shared.get value.kind

/-- The handler of a value for an operation. -/
def metamethod (m : Machine H) (value : Value) (method : Metamethod) : Option Value :=
  (m.metatableOf value).bind fun id =>
    let handler := (m.table id).get (.string method.name)
    if handler.isNil then none else some handler

/-- The function that the call of a value comes to, and the arguments that it gets, looking at no
more than `links` values on the way. -/
def callee? (m : Machine H) : Nat → Value → List Value → Option (FunctionId × List Value)
  | 0, _, _ => none
  | _ + 1, .function function, arguments => some (function, arguments)
  | links + 1, callee, arguments =>
    (m.metamethod callee .call).bind fun handler => m.callee? links handler (callee :: arguments)

/-- What comes of the call of a function: it is invoked once, in a native frame on top of the stack,
and the stack is cut back after it. Without room for the frame it is not invoked. -/
def callOnce (call : Routine.Invoker H) (m : Machine H) (function : FunctionId)
    (arguments : List Value) : Routine.Ending H (List Value) :=
  if m.depth < m.maxDepth then
    (call function arguments
      { m with stack := .native (m.functionName function) :: m.stack }).map fun ending =>
        (ending.1, ending.2.truncate m.depth)
  else some (.error (.ofMessage m.stack "stack overflow"), m)

end Machine

namespace Routine

variable {call : Invoker H}

theorem run_metatableOf (value : Value) :
    (metatableOf value).run call m = some (.ok (m.metatableOf value), m) := by
  cases value <;> rfl

theorem run_metamethod (value : Value) (method : Metamethod) :
    (metamethod value method).run call m = some (.ok (m.metamethod value method), m) := by
  rw [metamethod, metavalue, run_bind, run_metatableOf, Machine.metamethod]
  cases m.metatableOf value <;> rfl

/-- Calls a value that is not a function, by way of its metamethod. -/
def callThrough (links : Nat) (callee : Value) (arguments : List Value) :
    Routine H (List Value) := do
  match ← metamethod callee .call with
  | some handler => callWithin links handler (callee :: arguments)
  | none => fault (.unsupported .call callee.kind)

/-- A call does what it comes to. -/
theorem run_callWithin {links : Nat} {callee : Value} {arguments : List Value}
    {target : FunctionId × List Value} (h : m.callee? links callee arguments = some target) :
    (callWithin links callee arguments).run call m =
      (callFunction target.1 target.2).run call m := by
  induction links generalizing callee arguments with
  | zero => cases h
  | succ links ih =>
    have hother : (m.metamethod callee .call).bind
          (fun handler => m.callee? links handler (callee :: arguments)) = some target →
        (callThrough links callee arguments).run call m =
          (callFunction target.1 target.2).run call m := by
      intro htarget
      obtain ⟨handler, hhandler, hrest⟩ := Option.bind_eq_some_iff.1 htarget
      rw [callThrough, run_bind, run_metamethod, hhandler]
      exact ih hrest
    cases callee with
    | function function =>
      cases h
      rfl
    | _ => exact hother h

/-- A frame is pushed if there is room for it, and otherwise nothing changes. -/
theorem run_enter (frame : Frame) :
    (enter frame).run call m =
      if m.depth < m.maxDepth then some (.ok (), { m with stack := frame :: m.stack })
      else some (.error (.ofMessage m.stack "stack overflow"), m) := by
  change (if (m.enter frame).1 = true then pure () else fault .stackOverflow : Routine H Unit).run
    call (m.enter frame).2 = _
  rw [Machine.enter]
  split <;> rfl

theorem run_callFunction (function : FunctionId) (arguments : List Value) :
    (callFunction function arguments).run call m = m.callOnce call function arguments := by
  have hdepth : (depth : Routine H Nat).run call m = some (.ok m.depth, m) := rfl
  have hname : (functionName function : Routine H String).run call m =
      some (.ok (m.functionName function), m) := rfl
  rw [callFunction, Machine.callOnce]
  simp only [run_bind, hdepth, hname, run_enter]
  by_cases hroom : m.depth < m.maxDepth
  · simp only [if_pos hroom, run_attempt, invokeBody, run]
    cases call function arguments _ with
    | none => rfl
    | some ending =>
      obtain ⟨outcome, u⟩ := ending
      cases outcome <;> rfl
  · simp only [if_neg hroom]

/-- Without room for one more frame a function is not invoked. -/
theorem run_callFunction_of_full (function : FunctionId) (arguments : List Value)
    (h : m.maxDepth ≤ m.depth) :
    (callFunction function arguments).run call m =
      some (.error (.ofMessage m.stack "stack overflow"), m) := by
  rw [run_callFunction, Machine.callOnce, if_neg (Nat.not_lt.2 h)]

end Routine

end LuaLang
