import LuaLang.Frame
import LuaLang.Table

/-!
# Runtime errors

What can go wrong while a program runs. Each fault has one wording. An error carries a value, which
is what a program that catches it gets to see, a message for people, and the call stack at the time.
Both what the machine finds wrong and what a program raises on its own become such an error.

## Main definitions

* `Fault`, `Fault.message`: what the machine can find wrong, and how it says so.
* `RuntimeError.ofMessage`: an error at the current position.
* `RuntimeError.ofValue`: an error that a program raises with a value of its own.
-/

namespace LuaLang

/-- What an operation wants to do with a value. -/
inductive Purpose where
  | index | call | arithmetic | length | concatenate
deriving DecidableEq, Repr

def Purpose.phrase : Purpose → String
  | index => "index"
  | call => "call"
  | arithmetic => "perform arithmetic on"
  | length => "get length of"
  | concatenate => "concatenate"

/-- What a library function can have against an argument. -/
inductive ArgumentFault where
  | missing
  /-- Another kind of value is expected; an argument that is not there has no kind. -/
  | mismatch (expected : Kind) (found : Option Kind)
  | notMetatable
  | indexOutOfRange
  | baseOutOfRange
deriving DecidableEq, Repr

def ArgumentFault.message : ArgumentFault → String
  | missing => "value expected"
  | mismatch expected found =>
    expected.name ++ " expected, got " ++ (found.map Kind.name).getD "no value"
  | notMetatable => "nil or table expected"
  | indexOutOfRange => "index out of range"
  | baseOutOfRange => "base out of range"

inductive Fault where
  /-- A value that an operation cannot work on. -/
  | unsupported (purpose : Purpose) (kind : Kind)
  | incomparable (left right : Kind)
  | readLoop
  | writeLoop
  | callLoop
  | stackOverflow
  | badKey (error : TableError)
  /-- An argument, counted from one, that a function cannot take. -/
  | badArgument (position : Nat) (function : String) (problem : ArgumentFault)
  | protectedMetatable
  | tooManyResults
deriving DecidableEq, Repr

def Fault.message : Fault → String
  | unsupported purpose kind => "attempt to " ++ purpose.phrase ++ " a " ++ kind.name ++ " value"
  | incomparable left right =>
    if left = right then "attempt to compare two " ++ left.name ++ " values"
    else "attempt to compare " ++ left.name ++ " with " ++ right.name
  | readLoop => "loop in gettable"
  | writeLoop => "loop in settable"
  | callLoop => "'__call' chain too long"
  | stackOverflow => "stack overflow"
  | badKey error => error.message
  | badArgument position function problem =>
    "bad argument #" ++ toString position ++ " to '" ++ function ++ "' (" ++ problem.message ++ ")"
  | protectedMetatable => "cannot change a protected metatable"
  | tooManyResults => "too many results to unpack"

structure RuntimeError where
  message : String
  /-- What a program that catches the error gets. -/
  value : Value
  /-- The call stack at the time of the error, the latest frame first. -/
  stack : List Frame
  /-- How many frames up the blame was put. -/
  level : Nat
deriving DecidableEq, Repr

namespace RuntimeError

def position? : List Frame → Option String
  | [] => none
  | frame :: _ => frame.position?

/-- A message behind a position, if there is one. -/
def located (position : Option String) (message : String) : String :=
  match position with
  | some position => position ++ " " ++ message
  | none => message

/-- An error at the position of the latest frame. -/
def ofMessage (stack : List Frame) (message : String) : RuntimeError :=
  let message := located (position? stack) message
  ⟨message, .string message, stack, 1⟩

/-- How people are told about an error value. -/
def summary : Value → String
  | .string s => s
  | .number x => x.toText
  | value => "(error object is a " ++ value.kind.name ++ " value)"

/-- An error that a program raises, blamed on the frame `level` frames up. A string gets the
position of that frame in front, except at level zero; any other value stays what it is. -/
def ofValue (stack : List Frame) (value : Value) (level : Nat) : RuntimeError :=
  let stack := stack.drop level
  let position := if level = 0 then none else position? stack
  match value, position with
  | .string s, some position =>
    let message := located (some position) s
    ⟨message, .string message, stack, level⟩
  | value, _ => ⟨summary value, value, stack, level⟩

/-- Forgets up to `count` of the latest frames. -/
def unwind (e : RuntimeError) (count : Nat) : RuntimeError :=
  { e with stack := e.stack.drop count }

def traceback (e : RuntimeError) : String :=
  e.stack.foldl (fun text frame => text ++ "\n\t" ++ frame.describe) "stack traceback:"

end RuntimeError

end LuaLang
