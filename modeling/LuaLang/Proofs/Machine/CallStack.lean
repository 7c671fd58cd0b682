import Mathlib
import LuaLang.Library.Base
import LuaLang.Proofs.Machine.Frames

/-!
# The discipline of the call stack

Operators and library functions reach functions only by calling them, so they give the stack back
as calls do. By induction on how deep invocations nest, this holds of whole programs, as long as the
functions of the host leave alone the frames that they find.

## Main definitions

* `Machine.Careful`: the functions of the host leave alone the frames that they find.

## Main statements

* `Library.restores_body`: library functions give the stack back.
* `Machine.spares_invoke`: careful invocations leave alone what is under the latest frame.
* `Machine.call_stack_discipline`: what follows for all calls.
-/

namespace LuaLang

variable {H : Host} {α : Type} {frames : List Frame}

/-! ## The library -/

namespace Library

open Routine

variable {call : Invoker H} {within : FunctionId → List Value → Machine H → Prop}

/-- A protected call drops the frames of a function that has failed, which the call has done
already. -/
theorem restores_pcall (hcall : Spares call within) (arguments : List Value) :
    Restores call within frames (pcall arguments) := by
  unfold pcall
  refine ((plain_anyArgument _ _ _).restores hcall).bind fun function => leads_depth_bind ?_
  refine ((plain_callByCount _ _).restores hcall).attempt.bind fun outcome => ?_
  cases outcome with
  | ok results => exact restores_pure _
  | error e =>
    refine Restores.bind ?_ fun _ => restores_pure _
    refine leads_request _ fun m hm => ?_
    change (m.truncate frames.length).stack = frames
    rw [← hm]
    exact m.stack_truncate_depth

/-- Every function of the library gives the stack back as it was. -/
theorem restores_body (hcall : Spares call within) (function : Builtin) (arguments : List Value) :
    Restores call within frames (body function arguments) := by
  by_cases h : function = .pcall
  · rw [h]
    exact restores_pcall hcall arguments
  · exact (plain_body h arguments).restores hcall

end Library

/-! ## Whole programs -/

namespace Machine

open Routine

/-- The functions of a host, while they run, never drop the frame that was the latest when they were
invoked, or one below it. -/
def Careful (procedures : H.Procedure → List Value → Routine H (List Value)) :
    Nat → FunctionId → List Value → Machine H → Prop :=
  Throughout (Bodies.ofHost procedures) fun code start u =>
    (∃ procedure, code = .procedure procedure) → start.depth ≤ u.depth

theorem spares_invoke (procedures : H.Procedure → List Value → Routine H (List Value))
    (levels : Nat) :
    Spares (Machine.invoke (Bodies.ofHost procedures) levels) (Careful procedures levels) := by
  induction levels with
  | zero =>
    intro function arguments m below outcome u _ _ hrun
    cases hrun
  | succ levels ih =>
    intro function arguments m below outcome u hcareful hm hrun
    rw [Careful, Throughout] at hcareful
    rw [Machine.invoke] at hrun
    cases hfunction : m.function? function with
    | none =>
      rw [hfunction] at hrun
      cases hrun
      exact hm
    | some f =>
      rw [hfunction] at hcareful hrun
      obtain ⟨name, code⟩ := f
      cases code with
      | builtin b =>
        have hstack : u.stack = m.stack :=
          Library.restores_body ih b arguments m rfl (hcareful.mono fun _ _ => trivial) outcome u
            hrun
        rwa [RestsOn, depth, hstack]
      | procedure procedure =>
        exact run_restsOn ih hm
          (hcareful.mono fun _ hu => Nat.lt_of_lt_of_le hm.2 (hu ⟨procedure, rfl⟩)) hrun

/-- No run goes beyond the limit of the stack, at any moment. Calls of all sorts, operators with
their metamethods and library functions, protected calls among them, give the stack back frame for
frame, with a result or with an error, as long as the functions of the host are careful. A function
that a call comes to when there is no room is not invoked, whatever it is, and the call fails. -/
theorem call_stack_discipline
    (procedures : H.Procedure → List Value → Routine H (List Value)) (levels : Nat) :
    let bodies := Bodies.ofHost procedures
    let call := Machine.invoke bodies levels
    let careful := Careful procedures levels
    (∀ (m : Machine H) (α : Type) (routine : Routine H α), m.depth ≤ m.maxDepth →
      routine.Along call (KeepsTo m.maxDepth)
        (Throughout bodies (fun _ _ => KeepsTo m.maxDepth) levels) m) ∧
    (∀ frames,
      (∀ callee arguments, Restores call careful frames (Routine.call callee arguments)) ∧
      (∀ arity callee arguments,
        Restores call careful frames (callPrepared arity callee arguments)) ∧
      (∀ callee arguments, Restores call careful frames (callByCount callee arguments)) ∧
      (∀ base key, Restores call careful frames (index base key)) ∧
      (∀ base key value, Restores call careful frames (newIndex base key value)) ∧
      (∀ op value, Restores call careful frames (unary op value)) ∧
      (∀ op left right, Restores call careful frames (binary op left right)) ∧
      (∀ value, Restores call careful frames (toText value)) ∧
      ∀ function arguments,
        Restores call careful frames (Library.body function arguments)) ∧
    ∀ (m : Machine H) (callee : Value) (arguments : List Value) (target : FunctionId × List Value),
      m.callee? maxLinks callee arguments = some target → m.maxDepth ≤ m.depth →
      ∀ invoker, (Routine.call callee arguments).run invoker m =
        some (.error (.ofMessage m.stack "stack overflow"), m) := by
  have hspares := spares_invoke procedures levels
  have hoperations : ∀ frames, OfOperations fun routine : Routine H _ =>
      Restores (Machine.invoke (Bodies.ofHost procedures) levels) (Careful procedures levels) frames
        routine :=
    fun frames => ofOperations_of_plain fun h => h.restores hspares
  refine ⟨fun m α routine hdepth => ?_, fun frames => ⟨?_, ?_, ?_, ?_, ?_, ?_, ?_, ?_, ?_⟩, ?_⟩
  · have hrequest : ∀ (u : Machine H) request, u.KeepsTo m.maxDepth →
        (u.perform request).2.KeepsTo m.maxDepth := fun u request hu => hu.perform request
    exact (along_of_kept hrequest (throughout_of_kept _ hrequest levels) routine ⟨rfl, hdepth⟩).1
  · exact (hoperations frames).call
  · exact (hoperations frames).callPrepared
  · exact (hoperations frames).callByCount
  · exact (hoperations frames).index
  · exact (hoperations frames).newIndex
  · exact (hoperations frames).unary
  · exact (hoperations frames).binary
  · exact (hoperations frames).toText
  · exact Library.restores_body hspares
  · intro m callee arguments target htarget hfull invoker
    rw [Routine.call, run_callWithin htarget, run_callFunction_of_full _ _ hfull]

/-- A function pushes a frame, changes its line and fails, and the frame is gone after the call. -/
theorem call_stack_discipline_frame_left :
    let host : Host := ⟨Unit, Unit⟩
    let procedures : host.Procedure → List Value → Routine host (List Value) := fun _ _ => do
      Routine.enter (.lua "f" "x" 1)
      let _ ← request (.setLine 2)
      fault .tooManyResults
    let call := Machine.invoke (Bodies.ofHost procedures) 1
    let m : Machine host :=
      { start 5 () with functions := #[⟨"f", .procedure ()⟩], stack := [.chunk "x" 3] }
    ∃ error u, (Routine.call (.function ⟨0⟩) []).run call m = some (.error error, u) ∧
      error.stack = [.lua "f" "x" 2, .native "f", .chunk "x" 3] ∧ u.stack = [.chunk "x" 3] := by
  intro host procedures call m
  obtain ⟨-, hrestores, -⟩ := call_stack_discipline procedures 1
  obtain ⟨hcall, -⟩ := hrestores [.chunk "x" 3]
  have hrun : (Routine.call (.function ⟨0⟩) []).run call m = some (.error _, _) := rfl
  refine ⟨_, _, hrun, rfl, hcall (.function ⟨0⟩) [] m rfl ?_ _ _ hrun⟩
  refine ⟨trivial, trivial, trivial, ?_, fun results u _ => ?_⟩
  · -- The function makes three requests, and after each the stack is as high as it was, or higher.
    have hheight : 2 ≤ 3 := by decide
    exact ⟨fun _ => hheight, fun _ => hheight, fun _ => hheight, trivial⟩
  · cases results <;> exact ⟨trivial, trivial⟩

end Machine

end LuaLang
