import Mathlib
import LuaLang.Machine.Routine

/-!
# The course of a run

What holds at every moment of a run, and not only at its end: of each request that a routine makes,
after each request, and at each function that it invokes. A function is a routine again, so what
holds throughout an invocation is said level by level, as invocations nest.

## Main definitions

* `Routine.Asks`: what holds of the requests along a run of a routine.
* `Routine.Along`: what holds along a run of a routine.
* `Machine.AsksThroughout`, `Machine.Throughout`: the same along an invocation and all that it leads
  to.
* `Routine.Leads`: what a run leads to, given what its invocations keep to.

## Main statements

* `Machine.throughout_of_kept`: what every request keeps holds at every moment.
* `Machine.throughout_of_asks`: so does what those requests keep that are made.
-/

namespace LuaLang

variable {H : Host} {α β : Type} {m : Machine H}

namespace Routine

variable {call : Invoker H} {asks asks' : Machine H → Request H → Prop} {after : Machine H → Prop}
  {within within' : FunctionId → List Value → Machine H → Prop}

/-! ## The requests along a run -/

/-- Along a run, `asks` holds of each request and the machine on which it is made, and `within`
holds of each invocation. -/
def Asks (call : Invoker H) (asks : Machine H → Request H → Prop)
    (within : FunctionId → List Value → Machine H → Prop) : Routine H α → Machine H → Prop
  | done _, _ => True
  | fail _, _ => True
  | endless, _ => True
  | ask request next, m =>
    asks m request ∧ (next (m.perform request).1).Asks call asks within (m.perform request).2
  | invoke function arguments next, m =>
    within function arguments m ∧
      ∀ results u, call function arguments m = some (results, u) →
        (next results).Asks call asks within u

theorem asks_of_forall (hasks : ∀ m request, asks m request)
    (hwithin : ∀ function arguments m, within function arguments m) (routine : Routine H α)
    (m : Machine H) : routine.Asks call asks within m := by
  induction routine generalizing m with
  | done | fail | endless => trivial
  | ask request next ih => exact ⟨hasks m request, ih _ _⟩
  | invoke function arguments next ih =>
    exact ⟨hwithin function arguments m, fun results u _ => ih results u⟩

theorem Asks.and {both : FunctionId → List Value → Machine H → Prop} {routine : Routine H α}
    (h : routine.Asks call asks within m) (h' : routine.Asks call asks' within' m)
    (hboth : ∀ function arguments u, within function arguments u → within' function arguments u →
      both function arguments u) :
    routine.Asks call (fun u request => asks u request ∧ asks' u request) both m := by
  induction routine generalizing m with
  | done | fail | endless => trivial
  | ask request next ih => exact ⟨⟨h.1, h'.1⟩, ih _ h.2 h'.2⟩
  | invoke function arguments next ih =>
    exact ⟨hboth _ _ _ h.1 h'.1,
      fun results u hu => ih results (h.2 results u hu) (h'.2 results u hu)⟩

theorem asks_bind (routine : Routine H α) (next : α → Routine H β) (m : Machine H) :
    (routine >>= next).Asks call asks within m ↔
      routine.Asks call asks within m ∧
        ∀ result u, routine.run call m = some (.ok result, u) →
          (next result).Asks call asks within u := by
  change (routine.bind next).Asks call asks within m ↔ _
  induction routine generalizing m with
  | done | fail | endless => simp [Routine.bind, Asks, run]
  | ask request rest ih => simp only [Routine.bind, Asks, run, ih, and_assoc]
  | invoke function arguments rest ih =>
    simp only [Routine.bind, Asks, run, ih, and_assoc]
    cases call function arguments m with
    | none => simp
    | some ending =>
      obtain ⟨results, u⟩ := ending
      simp

theorem asks_attempt (routine : Routine H α) (m : Machine H) :
    routine.attempt.Asks call asks within m ↔ routine.Asks call asks within m := by
  induction routine generalizing m with
  | done | fail | endless => rfl
  | ask request rest ih => simp only [attempt, Asks, ih]
  | invoke function arguments rest ih => simp only [attempt, Asks, ih]

/-! ## The machines along a run -/

/-- Along a run, `after` holds of the machine after each request, and `within` holds of each
invocation. -/
def Along (call : Invoker H) (after : Machine H → Prop)
    (within : FunctionId → List Value → Machine H → Prop) : Routine H α → Machine H → Prop
  | done _, _ => True
  | fail _, _ => True
  | endless, _ => True
  | ask request next, m =>
    after (m.perform request).2 ∧
      (next (m.perform request).1).Along call after within (m.perform request).2
  | invoke function arguments next, m =>
    within function arguments m ∧
      ∀ results u, call function arguments m = some (results, u) →
        (next results).Along call after within u

/-- What holds after each request is something that holds of the request. -/
theorem along_iff_asks (routine : Routine H α) (m : Machine H) :
    routine.Along call after within m ↔
      routine.Asks call (fun u request => after (u.perform request).2) within m := by
  induction routine generalizing m with
  | done | fail | endless => rfl
  | ask request rest ih => simp only [Along, Asks, ih]
  | invoke function arguments rest ih => simp only [Along, Asks, ih]

theorem Along.mono {after' : Machine H → Prop} {routine : Routine H α}
    (h : routine.Along call after within m) (hafter : ∀ u, after u → after' u) :
    routine.Along call after' within m := by
  induction routine generalizing m with
  | done | fail | endless => trivial
  | ask request next ih => exact ⟨hafter _ h.1, ih _ h.2⟩
  | invoke function arguments next ih =>
    exact ⟨h.1, fun results u hu => ih results (h.2 results u hu)⟩

theorem along_bind (routine : Routine H α) (next : α → Routine H β) (m : Machine H) :
    (routine >>= next).Along call after within m ↔
      routine.Along call after within m ∧
        ∀ result u, routine.run call m = some (.ok result, u) →
          (next result).Along call after within u := by
  simp only [along_iff_asks, asks_bind]

theorem along_attempt (routine : Routine H α) (m : Machine H) :
    routine.attempt.Along call after within m ↔ routine.Along call after within m := by
  simp only [along_iff_asks, asks_attempt]

/-- What follows from what is kept by the requests and invocations that are made holds along a run,
and what is kept holds at its end. -/
theorem along_of_asks {kept : Machine H → Prop} (hafter : ∀ m, kept m → after m)
    (hrequest : ∀ m request, kept m → asks m request → kept (m.perform request).2)
    (hinvoke : ∀ function arguments m, kept m → within function arguments m →
      within' function arguments m ∧
        ∀ outcome u, call function arguments m = some (outcome, u) → kept u)
    {routine : Routine H α} (hm : kept m) (h : routine.Asks call asks within m) :
    routine.Along call after within' m ∧
      ∀ outcome u, routine.run call m = some (outcome, u) → kept u := by
  induction routine generalizing m with
  | done | fail =>
    refine ⟨trivial, fun outcome u hrun => ?_⟩
    cases hrun
    exact hm
  | endless => exact ⟨trivial, nofun⟩
  | ask request next ih =>
    have hnext := hrequest m request hm h.1
    obtain ⟨halong, hend⟩ := ih (m.perform request).1 hnext h.2
    exact ⟨⟨hafter _ hnext, halong⟩, hend⟩
  | invoke function arguments next ih =>
    obtain ⟨hwithin, hcall⟩ := hinvoke function arguments m hm h.1
    refine ⟨⟨hwithin, fun results u hu => (ih results (hcall results u hu) (h.2 results u hu)).1⟩,
      fun outcome u hrun => ?_⟩
    rw [run] at hrun
    split at hrun
    · next results v hv =>
      exact (ih results (hcall results v hv) (h.2 results v hv)).2 outcome u hrun
    · cases hrun

/-- What every request and every invocation keeps holds along a run and at its end. -/
theorem along_of_kept {kept : Machine H → Prop}
    (hrequest : ∀ m request, kept m → kept (m.perform request).2)
    (hinvoke : ∀ function arguments m, kept m → within function arguments m ∧
      ∀ outcome u, call function arguments m = some (outcome, u) → kept u)
    (routine : Routine H α) (hm : kept m) :
    routine.Along call kept within m ∧
      ∀ outcome u, routine.run call m = some (outcome, u) → kept u :=
  along_of_asks (fun _ hm => hm) (fun m request hm _ => hrequest m request hm)
    (fun function arguments m hm _ => hinvoke function arguments m hm) hm
    (asks_of_forall (fun _ _ => trivial) (fun _ _ _ => trivial) routine m)

/-! ## What a run leads to -/

/-- Started on a machine of which `before` holds, the routine leads to `ending` if it comes to an
end and `within` holds of its invocations. -/
def Leads (call : Invoker H) (within : FunctionId → List Value → Machine H → Prop)
    (before : Machine H → Prop) (routine : Routine H α)
    (ending : Except RuntimeError α → Machine H → Prop) : Prop :=
  ∀ m, before m → routine.Along call (fun _ => True) within m →
    ∀ outcome u, routine.run call m = some (outcome, u) → ending outcome u

variable {before : Machine H → Prop}

theorem leads_pure {ending : Except RuntimeError α → Machine H → Prop} (result : α)
    (h : ∀ m, before m → ending (.ok result) m) :
    Leads call within before (pure result) ending := by
  intro m hm _ outcome u hrun
  cases hrun
  exact h m hm

theorem leads_fail {ending : Except RuntimeError α → Machine H → Prop} (error : RuntimeError)
    (h : ∀ m, before m → ending (.error error) m) :
    Leads call within before (fail error) ending := by
  intro m hm _ outcome u hrun
  cases hrun
  exact h m hm

theorem leads_request (request : Request H)
    {ending : Except RuntimeError request.Answer → Machine H → Prop}
    (h : ∀ m, before m → ending (.ok (m.perform request).1) (m.perform request).2) :
    Leads call within before (Routine.request request) ending := by
  intro m hm _ outcome u hrun
  cases hrun
  exact h m hm

theorem Leads.bind {routine : Routine H α} {next : α → Routine H β}
    {middle : Except RuntimeError α → Machine H → Prop}
    {ending : Except RuntimeError β → Machine H → Prop}
    (h : Leads call within before routine middle)
    (hnext : ∀ result, Leads call within (middle (.ok result)) (next result) ending)
    (herror : ∀ error u, middle (.error error) u → ending (.error error) u) :
    Leads call within before (routine >>= next) ending := by
  intro m hm halong outcome u hrun
  obtain ⟨hfirst, hrest⟩ := (along_bind routine next m).1 halong
  rw [run_bind] at hrun
  split at hrun
  · next result v hv =>
    exact hnext result v (h m hm hfirst _ v hv) (hrest result v hv) outcome u hrun
  · next error v hv =>
    cases hrun
    exact herror error u (h m hm hfirst _ u hv)
  · cases hrun

theorem Leads.attempt {routine : Routine H α} {middle : Except RuntimeError α → Machine H → Prop}
    {ending : Except RuntimeError (Except RuntimeError α) → Machine H → Prop}
    (h : Leads call within before routine middle)
    (hending : ∀ outcome u, middle outcome u → ending (.ok outcome) u) :
    Leads call within before routine.attempt ending := by
  intro m hm halong outcome u hrun
  rw [run_attempt] at hrun
  obtain ⟨⟨result, v⟩, hv, heq⟩ := Option.map_eq_some_iff.1 hrun
  cases heq
  exact hending result v (h m hm ((along_attempt routine m).1 halong) result v hv)

end Routine

/-! ## Invocations -/

namespace Machine

open Routine

/-- Along an invocation and all that it leads to, `keeps` holds of the code that is running, the
machine on which it was invoked and the machine after each of its requests. -/
def Throughout (bodies : Bodies H) (keeps : Code H → Machine H → Machine H → Prop) :
    Nat → FunctionId → List Value → Machine H → Prop
  | 0, _, _, _ => True
  | levels + 1, function, arguments, m =>
    match m.function? function with
    | some f =>
      (bodies f.code arguments).Along (Machine.invoke bodies levels) (keeps f.code m)
        (Throughout bodies keeps levels) m
    | none => True

/-- Along an invocation and all that it leads to, `asks` holds of each request and the machine on
which it is made. -/
def AsksThroughout (bodies : Bodies H) (asks : Machine H → Request H → Prop) :
    Nat → FunctionId → List Value → Machine H → Prop
  | 0, _, _, _ => True
  | levels + 1, function, arguments, m =>
    match m.function? function with
    | some f =>
      (bodies f.code arguments).Asks (Machine.invoke bodies levels) asks
        (AsksThroughout bodies asks levels) m
    | none => True

variable {bodies : Bodies H} {asks asks' : Machine H → Request H → Prop} {levels : Nat}
  {function : FunctionId} {arguments : List Value}

/-- It is enough to look at the bodies one by one. -/
theorem asksThroughout_of_bodies
    (h : ∀ code arguments (call : Invoker H)
      (within : FunctionId → List Value → Machine H → Prop) (m : Machine H),
      (∀ function arguments m, within function arguments m) →
        (bodies code arguments).Asks call asks within m)
    (levels : Nat) (function : FunctionId) (arguments : List Value) (m : Machine H) :
    AsksThroughout bodies asks levels function arguments m := by
  induction levels generalizing function arguments m with
  | zero => trivial
  | succ levels ih =>
    rw [AsksThroughout]
    cases m.function? function with
    | some f => exact h f.code arguments _ _ m ih
    | none => trivial

theorem AsksThroughout.and (h : AsksThroughout bodies asks levels function arguments m)
    (h' : AsksThroughout bodies asks' levels function arguments m) :
    AsksThroughout bodies (fun u request => asks u request ∧ asks' u request) levels function
      arguments m := by
  induction levels generalizing function arguments m with
  | zero => trivial
  | succ levels ih =>
    rw [AsksThroughout] at h h' ⊢
    cases hfunction : m.function? function with
    | some f =>
      rw [hfunction] at h h'
      exact Asks.and h h' fun _ _ _ => ih
    | none => trivial

/-- What follows from what the requests keep that are made holds at every moment of an invocation,
and what is kept holds at its end. -/
theorem throughout_of_asks {kept after : Machine H → Prop} (hafter : ∀ m, kept m → after m)
    (hrequest : ∀ m request, kept m → asks m request → kept (m.perform request).2) (levels : Nat)
    (function : FunctionId) (arguments : List Value) (m : Machine H) (hm : kept m)
    (h : AsksThroughout bodies asks levels function arguments m) :
    Throughout bodies (fun _ _ => after) levels function arguments m ∧
      ∀ outcome u, Machine.invoke bodies levels function arguments m = some (outcome, u) →
        kept u := by
  induction levels generalizing function arguments m with
  | zero => exact ⟨trivial, fun outcome u h => by cases h⟩
  | succ levels ih =>
    rw [AsksThroughout] at h
    rw [Throughout, Machine.invoke]
    cases hfunction : m.function? function with
    | some f =>
      rw [hfunction] at h
      exact along_of_asks hafter hrequest ih hm h
    | none =>
      refine ⟨trivial, fun outcome u h => ?_⟩
      cases h
      exact hm

/-- What every request keeps holds at every moment of an invocation and at its end. -/
theorem throughout_of_kept {kept : Machine H → Prop} (bodies : Bodies H)
    (hrequest : ∀ m request, kept m → kept (m.perform request).2) (levels : Nat)
    (function : FunctionId) (arguments : List Value) (m : Machine H) (hm : kept m) :
    Throughout bodies (fun _ _ => kept) levels function arguments m ∧
      ∀ outcome u, Machine.invoke bodies levels function arguments m = some (outcome, u) →
        kept u := by
  have hasks : AsksThroughout bodies (fun _ _ => True) levels function arguments m :=
    asksThroughout_of_bodies (fun code arguments _ _ m hwithin =>
      asks_of_forall (fun _ _ => trivial) hwithin (bodies code arguments) m) levels function
      arguments m
  exact throughout_of_asks (fun _ hm => hm) (fun m request hm _ => hrequest m request hm) levels
    function arguments m hm hasks

end Machine

end LuaLang
