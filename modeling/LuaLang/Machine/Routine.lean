import LuaLang.Machine.Request

/-!
# Routines

What a function does, as a tree: a routine ends with a value or an error, or it asks something of
the machine, or it invokes a function, and goes on with the answer. A routine that is caught in a
loop does nothing of this. Operators and library functions are routines, and a routine says nothing
about how the functions that it invokes are run. That is said once, in `Machine.invoke`: function
bodies are routines again, and levels bound how deep invocations nest.

## Main definitions

* `Routine`: the tree.
* `Routine.attempt`: turns an error into a value.
* `Routine.run`: runs a routine on a machine, given a way to invoke functions.
* `Machine.invoke`, `Machine.run`: the same with functions run by their code.
-/

namespace LuaLang

/-- What is to be done on a machine to get an `α` or an error. -/
inductive Routine (H : Host) (α : Type) where
  | done (result : α)
  | fail (error : RuntimeError)
  /-- Goes on without an end, and without asking for anything. -/
  | endless
  | ask (request : Request H) (next : request.Answer → Routine H α)
  /-- Runs the body of a function, without a frame of its own. -/
  | invoke (function : FunctionId) (arguments : List Value)
      (next : Except RuntimeError (List Value) → Routine H α)

namespace Routine

variable {H : Host} {α β : Type}

protected def bind (routine : Routine H α) (next : α → Routine H β) : Routine H β :=
  match routine with
  | done result => next result
  | fail error => fail error
  | endless => endless
  | ask request rest => ask request fun answer => (rest answer).bind next
  | invoke function arguments rest => invoke function arguments fun results =>
      (rest results).bind next

instance : Monad (Routine H) where
  pure := done
  bind := Routine.bind

theorem bind_done (routine : Routine H α) : routine.bind done = routine := by
  induction routine with
  | done | fail | endless => rfl
  | ask _ _ ih => simp only [Routine.bind, ih]
  | invoke _ _ _ ih => simp only [Routine.bind, ih]

theorem bind_bind {γ : Type} (routine : Routine H α) (f : α → Routine H β) (g : β → Routine H γ) :
    (routine.bind f).bind g = routine.bind fun a => (f a).bind g := by
  induction routine with
  | done | fail | endless => rfl
  | ask _ _ ih => simp only [Routine.bind, ih]
  | invoke _ _ _ ih => simp only [Routine.bind, ih]

instance : LawfulMonad (Routine H) :=
  LawfulMonad.mk' (Routine H) bind_done (fun _ _ => rfl) bind_bind

/-- The routine that ends with an error as its result instead of failing. -/
def attempt : Routine H α → Routine H (Except RuntimeError α)
  | done result => done (.ok result)
  | fail error => done (.error error)
  | endless => endless
  | ask request rest => ask request fun answer => (rest answer).attempt
  | invoke function arguments rest => invoke function arguments fun results =>
      (rest results).attempt

def ofExcept : Except RuntimeError α → Routine H α
  | .ok result => done result
  | .error error => fail error

def request (request : Request H) : Routine H request.Answer :=
  ask request done

/-! ## Requests by name -/

def table (id : TableId) : Routine H Table := request (.table id)

def addTable (table : Table) : Routine H TableId := request (.addTable table)

def set (id : TableId) (key value : Value) : Routine H (Except TableError Unit) :=
  request (.set id key value)

def setMetatable (id : TableId) (metatable : Option TableId) : Routine H Unit :=
  request (.setMetatable id metatable)

def functionName (id : FunctionId) : Routine H String := request (.functionName id)

def addFunction (function : Function H) : Routine H FunctionId := request (.addFunction function)

def globals : Routine H TableId := request .globals

def sharedMetatable (kind : Kind) : Routine H (Option TableId) := request (.sharedMetatable kind)

def prepare (slot : Slot) : Routine H Unit := request (.prepare slot)

def stack : Routine H (List Frame) := request .stack

def print (text : String) : Routine H Unit := request (.print text)

def truncate (depth : Nat) : Routine H Unit := request (.truncate depth)

def depth : Routine H Nat := do
  return (← stack).length

/-! ## Errors -/

/-- Fails with a message at the position of the latest frame. -/
def failWith (message : String) : Routine H α := do
  fail (.ofMessage (← stack) message)

def fault (fault : Fault) : Routine H α :=
  failWith fault.message

def raise (value : Value) (level : Nat) : Routine H α := do
  fail (.ofValue (← stack) value level)

/-- Pushes a frame, or fails if there is no room for it. -/
def enter (frame : Frame) : Routine H Unit := do
  let entered : Bool ← request (.enter frame)
  unless entered do
    fault .stackOverflow

/-- Puts a value under a key, or fails if something is wrong with the key. -/
def setEntry (id : TableId) (key value : Value) : Routine H Unit := do
  match ← set id key value with
  | .ok () => return
  | .error e => fault (.badKey e)

/-! ## Running -/

/-- What comes of running something: an outcome and the machine after it, or nothing if it nests too
deep or never ends. -/
abbrev Ending (H : Host) (α : Type) := Option (Except RuntimeError α × Machine H)

/-- A way to invoke functions. -/
abbrev Invoker (H : Host) := FunctionId → List Value → Machine H → Ending H (List Value)

/-- Runs a routine on a machine, given a way to invoke functions. -/
def run (call : Invoker H) : Routine H α → Machine H → Ending H α
  | done result, m => some (.ok result, m)
  | fail error, m => some (.error error, m)
  | endless, _ => none
  | ask request next, m =>
    let (answer, m) := m.perform request
    (next answer).run call m
  | invoke function arguments next, m =>
    match call function arguments m with
    | some (results, m) => (next results).run call m
    | none => none

/-- What follows a routine runs on the machine that the routine leaves, unless it fails. -/
theorem run_bind (call : Invoker H) (routine : Routine H α) (next : α → Routine H β)
    (m : Machine H) :
    (routine >>= next).run call m =
      match routine.run call m with
      | some (.ok result, m) => (next result).run call m
      | some (.error e, m) => some (.error e, m)
      | none => none := by
  change (routine.bind next).run call m = _
  induction routine generalizing m with
  | done | fail | endless => rfl
  | ask _ _ ih => simp only [Routine.bind, run, ih]
  | invoke f arguments _ ih =>
    simp only [Routine.bind, run]
    cases call f arguments m with
    | none => rfl
    | some ending => exact ih ending.1 ending.2

/-- An attempt does what the routine does, and its result is the outcome of the routine. -/
theorem run_attempt (call : Invoker H) (routine : Routine H α) (m : Machine H) :
    routine.attempt.run call m =
      (routine.run call m).map fun ending => (.ok ending.1, ending.2) := by
  induction routine generalizing m with
  | done | fail | endless => rfl
  | ask _ _ ih => simp only [attempt, run, ih]
  | invoke f arguments _ ih =>
    simp only [attempt, run]
    cases call f arguments m with
    | none => rfl
    | some ending => exact ih ending.1 ending.2

end Routine

/-- What the functions of a machine do: the body of each code, given the arguments. -/
abbrev Bodies (H : Host) := Code H → List Value → Routine H (List Value)

/-- Invokes a function by its body, with invocations nested at most `levels` deep. A name without a
function gives nothing. -/
def Machine.invoke {H : Host} (bodies : Bodies H) : Nat → Routine.Invoker H
  | 0, _, _, _ => none
  | levels + 1, function, arguments, m =>
    match m.function? function with
    | some f => (bodies f.code arguments).run (Machine.invoke bodies levels) m
    | none => some (.ok [], m)

/-- Runs a routine, with invocations nested at most `levels` deep. -/
def Machine.run {H : Host} {α : Type} (bodies : Bodies H) (levels : Nat) (m : Machine H)
    (routine : Routine H α) : Routine.Ending H α :=
  routine.run (Machine.invoke bodies levels) m

end LuaLang
