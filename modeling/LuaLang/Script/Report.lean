import LuaLang.Library.Base
import LuaLang.Script.Perform

/-!
# Reports on scripts

Runs the steps of a script one after the other on one machine, and reports what came of each. A step
that fails does not keep the next from running.

## Main definitions

* `Script.Report`: what came of a step.
* `Script.runStep`: runs one step on a machine.
* `Script.run`: runs a whole script on a new machine.
-/

namespace LuaLang.Script

inductive Failure where
  | table (error : TableError)
  | runtime (error : RuntimeError) (value : Shown)

structure Report where
  outcome : Except Failure (Result Shown)
  /-- The depth of the call stack after the step. -/
  depth : Nat
  /-- What was printed during the step. -/
  printed : String

/-- The bodies of all functions of a machine that runs scripts. -/
def bodies : Bodies host :=
  .ofHost Procedure.body

/-- How deep invocations may nest. Only functions that get by without frames of their own can nest
deeper than the call stack allows. -/
def maxLevels : Nat := 100000

def showStep (step : Step) : Running (Result Shown) := do
  (← performStep step).show

/-- Does what a step says outside of all functions, and shows what it gives or why it failed. -/
def attemptStep (step : Step) : Routine host (Except Failure (Result Shown)) := do
  match ← (showStep step []).run.attempt with
  | .ok (.ok result) => return .ok result
  | .ok (.error e) => return .error (.table e)
  | .error e =>
    match ← (showValue e.value []).run with
    | .ok value => return .error (.runtime e value)
    | .error e => return .error (.table e)

/-- Runs a step on a machine; nothing comes of it if invocations nest too deep. -/
def runStep (m : Machine host) (step : Step) : Option (Report × Machine host) :=
  match m.run bodies maxLevels (attemptStep step) with
  | some (.ok outcome, m) => some (⟨outcome, m.depth, m.output⟩, { m with output := "" })
  | _ => none

def runSteps (m : Machine host) : List Step → Option (List Report)
  | [] => some []
  | step :: rest =>
    match runStep m step with
    | some (report, m) => (runSteps m rest).map (report :: ·)
    | none => none

/-- A machine on which scripts run, with or without the base library. -/
def machine (library : Bool) (maxDepth : Nat) : Machine host :=
  let m := Machine.start maxDepth ({} : Memory)
  if library then m.withLibrary else m

def run (library : Bool) (maxDepth : Nat) (steps : List Step) : Option (List Report) :=
  runSteps (machine library maxDepth) steps

end LuaLang.Script
