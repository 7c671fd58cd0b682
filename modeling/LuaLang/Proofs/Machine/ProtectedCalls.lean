import Mathlib
import LuaLang.Proofs.Machine.CallStack

/-!
# Protected calls

How an error travels. Whatever is made of requests and calls hands on every error of the functions
that it invokes, so an error goes up unchanged from the function that raises it, through all that is
under way, to the first protected call above it. There it becomes a result, and nothing of it is
left on the stack.

## Main definitions

* `Routine.Reaches`: a run comes to an invocation of some sort.
* `Routine.HandsOn`, `Routine.PassesOn`: errors of what is invoked become errors of the whole.
* `Library.Raise`, `Library.Raise.arrival`: what a program raises, and what is caught of it.
* `Machine.Raises`: an invocation comes to such an error, and nothing on the way catches it.

## Main statements

* `Routine.Plain.passesOn`: what is plain hands on all errors.
* `Library.run_pcall`: what comes of a protected call.
* `Machine.Raises.invoke`: an error that is raised is what the invocation ends with.
* `Machine.protected_call_contains_errors`: what follows for all programs.
-/

namespace LuaLang

variable {H : Host} {α β : Type} {m : Machine H}

namespace Routine

variable {call : Invoker H} {within : FunctionId → List Value → Machine H → Prop}

/-- The run comes to an invocation of which `within` holds. -/
def Reaches (call : Invoker H) (within : FunctionId → List Value → Machine H → Prop) :
    Routine H α → Machine H → Prop
  | done _, _ => False
  | fail _, _ => False
  | endless, _ => False
  | ask request next, m =>
    (next (m.perform request).1).Reaches call within (m.perform request).2
  | invoke function arguments next, m =>
    within function arguments m ∨
      ∃ results u, call function arguments m = some (results, u) ∧
        (next results).Reaches call within u

theorem Reaches.mono {within' : FunctionId → List Value → Machine H → Prop} {routine : Routine H α}
    (h : routine.Reaches call within m)
    (hwithin : ∀ function arguments u, within function arguments u →
      within' function arguments u) : routine.Reaches call within' m := by
  induction routine generalizing m with
  | done | fail | endless => exact h
  | ask request next ih => exact ih _ h
  | invoke function arguments next ih =>
    obtain h | ⟨results, u, hu, h⟩ := h
    · exact .inl (hwithin _ _ _ h)
    · exact .inr ⟨results, u, hu, ih results h⟩

theorem reaches_bind (routine : Routine H α) (next : α → Routine H β) (m : Machine H) :
    (routine >>= next).Reaches call within m ↔
      routine.Reaches call within m ∨
        ∃ result u, routine.run call m = some (.ok result, u) ∧
          (next result).Reaches call within u := by
  change (routine.bind next).Reaches call within m ↔ _
  induction routine generalizing m with
  | done | fail | endless => simp [Routine.bind, Reaches, run]
  | ask request rest ih => simp only [Routine.bind, Reaches, run, ih]
  | invoke function arguments rest ih =>
    simp only [Routine.bind, Reaches, run, ih]
    cases call function arguments m with
    | none => simp
    | some ending =>
      obtain ⟨results, u⟩ := ending
      simp [or_assoc]

/-! ## Handing errors on -/

/-- If the run comes to an invocation that fails with this error, then it fails with it itself. -/
def HandsOn (call : Invoker H) (error : RuntimeError) (routine : Routine H α) (m : Machine H) :
    Prop :=
  routine.Reaches call
      (fun function arguments u => ∃ v, call function arguments u = some (.error error, v)) m →
    ∃ u, routine.run call m = some (.error error, u)

/-- A routine that hands on all errors, whatever the functions that it invokes do. -/
def PassesOn (routine : Routine H α) : Prop :=
  ∀ call error m, routine.HandsOn call error m

theorem PassesOn.bind {routine : Routine H α} {next : α → Routine H β} (h : routine.PassesOn)
    (hnext : ∀ result, (next result).PassesOn) : (routine >>= next).PassesOn := by
  intro call error m hreaches
  rw [run_bind]
  obtain hfirst | ⟨result, u, hu, hrest⟩ := (reaches_bind routine next m).1 hreaches
  · obtain ⟨u, hu⟩ := h call error m hfirst
    exact ⟨u, by rw [hu]⟩
  · rw [hu]
    exact hnext result call error u hrest

theorem passesOn_request (request : Request H) : (Routine.request request).PassesOn :=
  fun _ _ _ hreaches => hreaches.elim

theorem passesOn_enter (frame : Frame) : (enter frame : Routine H Unit).PassesOn := by
  refine (passesOn_request (.enter frame)).bind fun entered => ?_
  cases entered <;> exact fun _ _ _ hreaches => hreaches.elim

/-- A call drops the frames of a function that has failed, and fails as the function has. -/
theorem passesOn_callFunction (function : FunctionId) (arguments : List Value) :
    (callFunction function arguments : Routine H (List Value)).PassesOn := by
  have hbody : ∀ before, (do
      let results ← (invokeBody function arguments).attempt
      truncate before
      ofExcept results : Routine H (List Value)).PassesOn := by
    intro before call error m hreaches
    obtain ⟨v, hv⟩ | ⟨results, u, -, hrest⟩ := hreaches
    · refine ⟨v.truncate before, ?_⟩
      rw [run_bind, run_attempt, invokeBody, run, hv]
      rfl
    · cases results <;> exact hrest.elim
  refine PassesOn.bind (fun _ _ _ hreaches => hreaches.elim) fun before => ?_
  refine (passesOn_request (.functionName function)).bind fun name => ?_
  exact (passesOn_enter _).bind fun _ => hbody before

/-- What is plain hands on all errors. -/
theorem Plain.passesOn {routine : Routine H α} (h : routine.Plain) : routine.PassesOn := by
  induction h with
  | pure | fail | endless => exact fun _ _ _ hreaches => hreaches.elim
  | request request _ => exact passesOn_request request
  | bind _ _ ih ihnext => exact ih.bind ihnext
  | callFunction function arguments => exact passesOn_callFunction function arguments

end Routine

/-! ## Raising and catching -/

namespace Library

open Routine

/-- An error that a program raises: the value, how many frames up the blame is put, and the frames
at the time. -/
structure Raise where
  value : Value
  level : Nat
  frames : List Frame

/-- The level that a call of `error` asks for, one unless said otherwise; none if it is not a
number. -/
def errorLevel? (arguments : List Value) : Option Nat :=
  if (Value.nth arguments 1).isNil then some 1
  else (Value.nth arguments 1).toNumber?.map levelOf

namespace Raise

/-- The function with this code, invoked on this machine, is `error` and raises this. -/
def IsMadeBy (raise : Raise) (code : Code H) (arguments : List Value) (m : Machine H) : Prop :=
  code = .builtin .error ∧ Value.first arguments = raise.value ∧
    errorLevel? arguments = some raise.level ∧ m.stack = raise.frames

def error (raise : Raise) : RuntimeError :=
  .ofValue raise.frames raise.value raise.level

/-- What a program that catches the error gets. A value stays what it is, but a string that is
raised at level one or above gets in front where the frame so many frames up is, if there is such a
frame and it is not one of native code. -/
def arrival (raise : Raise) : Value :=
  match raise.value, raise.level, raise.frames[raise.level]? with
  | .string s, _ + 1, some frame =>
    if frame.kind = .native then .string s
    else .string (frame.source ++ ":" ++ toString frame.line ++ ": " ++ s)
  | value, _, _ => value

theorem value_error (raise : Raise) : raise.error.value = raise.arrival := by
  obtain ⟨value, level, frames⟩ := raise
  cases value with
  | string s =>
    cases level with
    | zero => rfl
    | succ level =>
      have hblamed : frames[level + 1]? = (frames.drop (level + 1)).head? := List.head?_drop.symm
      simp only [error, arrival, RuntimeError.ofValue, hblamed]
      cases hdrop : frames.drop (level + 1) with
      | nil => rfl
      | cons frame rest =>
        obtain ⟨kind, name, source, line⟩ := frame
        cases kind <;>
          simp [RuntimeError.position?, RuntimeError.located, Frame.position?, Frame.place,
            String.append_assoc]
  | _ => rfl

end Raise

theorem levelOf_one : levelOf (.ofNat 1) = 1 := by
  decide +kernel

/-- Raising ends with the error that is raised. -/
theorem run_error {call : Invoker H} {raise : Raise} {arguments : List Value} {m : Machine H}
    (h : raise.IsMadeBy (.builtin .error : Code H) arguments m) :
    (error arguments).run call m = some (.error raise.error, m) := by
  obtain ⟨-, hvalue, hlevel, hframes⟩ := h
  have hnumber : ∃ x, (optionalNumber .error arguments 1 (.ofNat 1)).run call m = some (.ok x, m) ∧
      levelOf x = raise.level := by
    rw [errorLevel?] at hlevel
    rw [optionalNumber]
    split at hlevel
    · next hnil =>
      rw [if_pos hnil]
      exact ⟨_, rfl, levelOf_one.trans (Option.some.inj hlevel)⟩
    · next hnil =>
      obtain ⟨x, hx, hlevel⟩ := Option.map_eq_some_iff.1 hlevel
      rw [if_neg hnil, numberArgument, hx]
      exact ⟨x, rfl, hlevel⟩
  obtain ⟨x, hx, hlevel⟩ := hnumber
  rw [error, run_bind, hx, Raise.error, ← hvalue, ← hlevel, ← hframes]
  rfl

/-- A protected call never fails: what it calls ends with results or with an error, and it makes a
result of either. -/
theorem run_pcall (call : Invoker H) (callee : Value) (arguments : List Value) (m : Machine H) :
    (pcall (callee :: arguments)).run call m =
      match (callByCount callee arguments).run call m with
      | some (.ok results, u) => some (.ok (.boolean true :: results), u)
      | some (.error e, u) => some (.ok [.boolean false, e.value], u.truncate m.depth)
      | none => none := by
  change (((callByCount callee arguments).attempt >>= _).run call m) = _
  rw [run_bind, run_attempt]
  cases (callByCount callee arguments).run call m with
  | none => rfl
  | some ending =>
    obtain ⟨outcome, u⟩ := ending
    cases outcome <;> rfl

end Library

/-! ## Whole programs -/

namespace Machine

open Routine Library

/-- The invocation comes to this error: the function raises it, or it comes to an invocation that
does so in turn. Nothing on the way catches the error: none of the functions is the protected call,
and those of the host hand it on. -/
def Raises (procedures : H.Procedure → List Value → Routine H (List Value)) (raise : Raise) :
    Nat → FunctionId → List Value → Machine H → Prop
  | 0, _, _, _ => False
  | levels + 1, function, arguments, m =>
    let call := Machine.invoke (Bodies.ofHost procedures) levels
    ∃ f, m.function? function = some f ∧
      (raise.IsMadeBy f.code arguments m ∨
        match f.code with
        | .builtin function =>
          function ≠ .pcall ∧
            (Library.body function arguments).Reaches call (Raises procedures raise levels) m
        | .procedure procedure =>
          (procedures procedure arguments).HandsOn call raise.error m ∧
            (procedures procedure arguments).Reaches call (Raises procedures raise levels) m)

/-- What is raised and not caught is what the invocation ends with. -/
theorem Raises.invoke {procedures : H.Procedure → List Value → Routine H (List Value)}
    {raise : Raise} {levels : Nat} {function : FunctionId} {arguments : List Value} {m : Machine H}
    (h : Raises procedures raise levels function arguments m) :
    ∃ u, Machine.invoke (Bodies.ofHost procedures) levels function arguments m =
      some (.error raise.error, u) := by
  induction levels generalizing function arguments m with
  | zero => exact h.elim
  | succ levels ih =>
    obtain ⟨⟨name, code⟩, hfunction, h⟩ := h
    rw [Machine.invoke, hfunction]
    obtain hmade | h := h
    · obtain rfl : code = .builtin .error := hmade.1
      exact ⟨m, run_error hmade⟩
    · cases code with
      | builtin function =>
        exact (plain_body h.1 arguments).passesOn _ _ m (h.2.mono fun _ _ _ => ih)
      | procedure procedure => exact h.1 (h.2.mono fun _ _ _ => ih)

/-- A protected call, once it is running, never fails. It gives true and all results if the call of
its first argument with the others succeeds, and otherwise false and the value of the error, and if
the functions of the host are careful, the stack is then as it was. A value that a program raises,
however deep in what is called, arrives as what `Library.Raise.arrival` says, if nothing on the way
catches the error. Calls of all sorts, operators with their metamethods and the other functions of
the library do not, and neither does what is put together from routines that do not. -/
theorem protected_call_contains_errors
    (procedures : H.Procedure → List Value → Routine H (List Value)) (levels : Nat) :
    let call := Machine.invoke (Bodies.ofHost procedures) levels
    (∀ callee arguments m, (pcall (callee :: arguments)).run call m =
      match (callByCount callee arguments).run call m with
      | some (.ok results, u) => some (.ok (.boolean true :: results), u)
      | some (.error e, u) => some (.ok [.boolean false, e.value], u.truncate m.depth)
      | none => none) ∧
    (∀ callee arguments m,
      (callByCount callee arguments).Along call (fun _ => True) (Careful procedures levels) m →
        ∀ outcome u, (pcall (callee :: arguments)).run call m = some (outcome, u) →
          u.stack = m.stack) ∧
    (∀ raise callee arguments m,
      (callByCount callee arguments).Reaches call (Raises procedures raise levels) m →
        ∃ u, (pcall (callee :: arguments)).run call m =
          some (.ok [.boolean false, raise.arrival], u)) ∧
    OfOperations (fun routine : Routine H _ => routine.PassesOn) ∧
    ∀ (α β : Type) (routine : Routine H α) (next : α → Routine H β), routine.PassesOn →
      (∀ result, (next result).PassesOn) → (routine >>= next).PassesOn := by
  intro call
  refine ⟨run_pcall call, fun callee arguments m hcareful outcome u hrun => ?_,
    fun raise callee arguments m hreaches => ?_, ofOperations_of_plain fun h => h.passesOn,
    fun _ _ _ _ h hnext => h.bind hnext⟩
  · have hrestores := (plain_callByCount callee arguments).restores
      (spares_invoke procedures levels) m rfl hcareful
    rw [run_pcall] at hrun
    split at hrun
    · next results v hv =>
      cases hrun
      exact hrestores _ _ hv
    · next e v hv =>
      cases hrun
      have hstack : v.stack = m.stack := hrestores _ _ hv
      rw [depth, ← hstack]
      exact v.stack_truncate_depth
    · cases hrun
  · obtain ⟨u, hu⟩ := (plain_callByCount callee arguments).passesOn call raise.error m
      (hreaches.mono fun _ _ _ h => h.invoke)
    refine ⟨u.truncate m.depth, ?_⟩
    rw [run_pcall, hu, ← raise.value_error]

/-- A function reads from a table, whose metamethod is a function that raises a string, and the
string arrives with the position of the function that has raised it. -/
theorem protected_call_contains_errors_dispatched :
    let host : Host := ⟨Bool, Unit⟩
    let procedures : host.Procedure → List Value → Routine host (List Value) := fun
      | false, _ => do return [← index (.table ⟨0⟩) (.string "k")]
      | true, _ => do
        Routine.enter (.lua "g" "x.lua" 7)
        callByCount (.function ⟨2⟩) [.string "boom"]
    let call := Machine.invoke (Bodies.ofHost procedures) 3
    let m : Machine host :=
      { start 10 () with
        tables := #[{ metatable := some ⟨1⟩ }, Table.empty.push (.string "__index") (.function ⟨1⟩)]
        functions := #[⟨"f", .procedure false⟩, ⟨"g", .procedure true⟩, .ofBuiltin .error]
        stack := [.native "pcall", .chunk "x.lua" 3] }
    ∃ u, (pcall [.function ⟨0⟩]).run call m =
      some (.ok [.boolean false, .string "x.lua:7: boom"], u) := by
  intro host procedures call m
  obtain ⟨-, -, hraise, hoperations, hbind⟩ := protected_call_contains_errors procedures 3
  let raise : Raise :=
    ⟨.string "boom", 1, [.native "error", .lua "g" "x.lua" 7, .native "g", .native "f",
      .native "pcall", .chunk "x.lua" 3]⟩
  -- What the three functions find when they are invoked, and how the first invokes others.
  let u : Machine host := { m with prepared := [.call 0], stack := .native "f" :: m.stack }
  let v : Machine host := { u with prepared := [.call 2, .call 0], stack := .native "g" :: u.stack }
  let w : Machine host := { v with prepared := [.call 1, .call 2, .call 0], stack := raise.frames }
  let inner := Machine.invoke (Bodies.ofHost procedures) 2
  have hown : (ownEntry (.table ⟨0⟩) (.string "k")).run inner u = some (.ok none, u) := by
    have hget : (u.table ⟨0⟩).get (.string "k") = .nil := by
      simp [Machine.table, u, m, Table.get, Table.place?]
    change some (Except.ok (if ((u.table ⟨0⟩).get (.string "k")).isNil then none else some _), u) =
      _
    rw [hget]
    rfl
  have hhandler : u.metamethod (.table ⟨0⟩) .index = some (.function ⟨1⟩) := by
    have hget : (u.table ⟨1⟩).get (.string "__index") = .function ⟨1⟩ := by
      simp [Machine.table, u, m, Table.get, Table.place?, Table.push, Table.empty, Table.valueAt]
    change (if ((u.table ⟨1⟩).get (.string "__index")).isNil then none
      else some ((u.table ⟨1⟩).get (.string "__index"))) = _
    rw [hget]
    rfl
  have herror : Raises procedures raise 1 ⟨2⟩ [.string "boom"] w :=
    ⟨_, rfl, .inl ⟨rfl, rfl, rfl, rfl⟩⟩
  have hmetamethod : Raises procedures raise 2 ⟨1⟩ [.table ⟨0⟩, .string "k"] v := by
    refine ⟨_, rfl, .inr ⟨?_, .inl herror⟩⟩
    exact (passesOn_enter _).bind (fun _ => hoperations.callByCount _ _) _ _ _
  have hdispatch : (callHandler (.function ⟨1⟩) (.table ⟨0⟩) (.string "k")).Reaches inner
      (Raises procedures raise 2) u := .inl hmetamethod
  have hindex : (index (.table ⟨0⟩) (.string "k")).Reaches inner (Raises procedures raise 2) u := by
    refine (reaches_bind _ _ _).2 (.inr ⟨none, u, hown, ?_⟩)
    refine (reaches_bind _ _ _).2 (.inr ⟨some (.function ⟨1⟩), u, ?_, hdispatch⟩)
    rw [run_metamethod, hhandler]
  have harrival : raise.arrival = .string "x.lua:7: boom" := by decide +kernel
  rw [← harrival]
  refine hraise raise (.function ⟨0⟩) [] m (.inl ⟨_, rfl, .inr ⟨?_, ?_⟩⟩)
  · exact hbind _ _ _ _ (hoperations.index _ _) (fun _ => (Plain.pure _).passesOn) _ _ _
  · exact (reaches_bind _ _ _).2 (.inl hindex)

end Machine

end LuaLang
