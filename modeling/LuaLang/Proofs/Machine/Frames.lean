import Mathlib
import LuaLang.Proofs.Machine.Course
import LuaLang.Proofs.Machine.Operations

/-!
# Frames

What routines do to the call stack. A single request pushes one frame, drops some or leaves all as
they are; a function that is called gets a frame of its own, and whatever it leaves behind is
dropped together with that frame. So a call gives the stack back as it was, as long as the function
has left the frames under its own alone.

## Main definitions

* `Machine.KeepsTo`: the stack keeps to a limit.
* `Machine.RestsOn`: there are frames above the given ones.
* `Routine.Spares`: invocations leave the frames under the latest one alone.
* `Routine.Restores`: a routine gives the stack back.

## Main statements

* `Machine.stack_perform`: what a request does to the stack.
* `Routine.restores_callFunction`: calling a function gives the stack back.
* `Routine.Plain.restores`: so does everything plain.
-/

namespace LuaLang

variable {H : Host} {α β : Type} {m : Machine H} {below frames : List Frame}

/-! ## What requests do to the stack -/

namespace Machine

/-- A request leaves the stack as it is, pushes a frame for which there is room, drops the latest
frames, or changes the line of the latest one. The limit stays what it is. -/
theorem stack_perform (m : Machine H) (request : Request H) :
    (m.perform request).2.maxDepth = m.maxDepth ∧
      ((m.perform request).2.stack = m.stack ∨
        (m.depth < m.maxDepth ∧ ∃ frame, (m.perform request).2.stack = frame :: m.stack) ∨
        (∃ count, (m.perform request).2.stack = m.stack.drop count) ∨
        ∃ line, (m.perform request).2.stack = m.stack.modifyHead ({ · with line })) := by
  cases request with
  | set id key value =>
    rw [perform]
    split <;> exact ⟨rfl, .inl rfl⟩
  | prepare slot =>
    rw [perform, prepare]
    split <;> exact ⟨rfl, .inl rfl⟩
  | enter frame =>
    rw [perform, enter]
    split
    · next hroom => exact ⟨rfl, .inr (.inl ⟨hroom, frame, rfl⟩)⟩
    · exact ⟨rfl, .inl rfl⟩
  | leave => exact ⟨rfl, .inr (.inr (.inl ⟨1, List.drop_one.symm⟩))⟩
  | setLine line => exact ⟨rfl, .inr (.inr (.inr ⟨line, rfl⟩))⟩
  | truncate depth => exact ⟨rfl, .inr (.inr (.inl ⟨m.depth - depth, rfl⟩))⟩
  | _ => exact ⟨rfl, .inl rfl⟩

theorem stack_perform_of_isQuiet (m : Machine H) {request : Request H} (h : request.IsQuiet) :
    (m.perform request).2.stack = m.stack := by
  cases request with
  | set id key value =>
    rw [perform]
    split <;> rfl
  | prepare slot =>
    rw [perform, prepare]
    split <;> rfl
  | enter | leave | setLine | truncate => exact h.elim
  | _ => rfl

/-- The stack may hold so many frames, and it does not hold more. -/
def KeepsTo (limit : Nat) (m : Machine H) : Prop :=
  m.maxDepth = limit ∧ m.depth ≤ limit

theorem KeepsTo.perform {limit : Nat} (request : Request H) (h : m.KeepsTo limit) :
    (m.perform request).2.KeepsTo limit := by
  obtain ⟨hmax, hstack⟩ := stack_perform m request
  refine ⟨hmax.trans h.1, ?_⟩
  rcases hstack with hstack | ⟨hroom, frame, hstack⟩ | ⟨count, hstack⟩ | ⟨line, hstack⟩
  all_goals
    simp only [KeepsTo, depth, hstack, List.length_cons, List.length_drop,
      List.length_modifyHead] at *
    omega

/-- Some frames lie under others. -/
def RestsOn (m : Machine H) (below : List Frame) : Prop :=
  below <:+ m.stack ∧ below.length < m.depth

theorem RestsOn.perform {request : Request H} (h : m.RestsOn below)
    (hdepth : below.length < (m.perform request).2.depth) :
    (m.perform request).2.RestsOn below := by
  obtain ⟨hbelow, hlength⟩ := h
  refine ⟨?_, hdepth⟩
  obtain ⟨-, hstack⟩ := stack_perform m request
  rcases hstack with hstack | ⟨-, frame, hstack⟩ | ⟨count, hstack⟩ | ⟨line, hstack⟩
  · rwa [hstack]
  · rw [hstack]
    exact hbelow.trans (List.suffix_cons _ _)
  · rw [depth, hstack] at hdepth
    rw [hstack]
    exact List.suffix_of_suffix_length_le hbelow (List.drop_suffix _ _) hdepth.le
  · rw [hstack]
    rw [depth] at hlength
    cases hframes : m.stack with
    | nil => simp [hframes] at hlength
    | cons top rest =>
      rw [hframes] at hbelow hlength
      have hrest : below <:+ rest :=
        List.suffix_of_suffix_length_le hbelow (List.suffix_cons _ _) (Nat.lt_succ_iff.1 hlength)
      exact hrest.trans (List.suffix_cons _ _)

theorem RestsOn.stack_truncate (h : m.RestsOn below) :
    (m.truncate below.length).stack = below := by
  obtain ⟨⟨above, habove⟩, -⟩ := h
  simp [truncate, depth, ← habove]

end Machine

/-! ## Routines that give the stack back -/

namespace Routine

variable {call : Invoker H} {within : FunctionId → List Value → Machine H → Prop}

/-- Invocations of which `within` holds leave the frames under the latest one alone. -/
def Spares (call : Invoker H) (within : FunctionId → List Value → Machine H → Prop) : Prop :=
  ∀ function arguments m below outcome u, within function arguments m → m.RestsOn below →
    call function arguments m = some (outcome, u) → u.RestsOn below

/-- A routine that does not go down to some frames leaves them alone. -/
theorem run_restsOn {routine : Routine H α} {outcome : Except RuntimeError α} {u : Machine H}
    (hcall : Spares call within) (hm : m.RestsOn below)
    (halong : routine.Along call (fun u => below.length < u.depth) within m)
    (hrun : routine.run call m = some (outcome, u)) : u.RestsOn below := by
  induction routine generalizing m with
  | done | fail =>
    cases hrun
    exact hm
  | endless => cases hrun
  | ask request next ih => exact ih _ (hm.perform halong.1) halong.2 hrun
  | invoke function arguments next ih =>
    obtain ⟨hwithin, hnext⟩ := halong
    rw [run] at hrun
    split at hrun
    · next results v hv =>
      exact ih results (hcall _ _ _ _ _ _ hwithin hm hv) (hnext results v hv) hrun
    · cases hrun

/-- On a machine with these frames, a routine ends with these frames. -/
def Restores (call : Invoker H) (within : FunctionId → List Value → Machine H → Prop)
    (frames : List Frame) (routine : Routine H α) : Prop :=
  Leads call within (fun m => m.stack = frames) routine fun _ u => u.stack = frames

theorem restores_pure (result : α) : Restores call within frames (pure result) :=
  leads_pure result fun _ hm => hm

theorem restores_fail (error : RuntimeError) :
    Restores call within frames (fail error : Routine H α) :=
  leads_fail error fun _ hm => hm

theorem restores_endless : Restores call within frames (endless : Routine H α) :=
  fun _ _ _ _ _ => nofun

theorem restores_request (request : Request H)
    (h : ∀ m : Machine H, (m.perform request).2.stack = m.stack) :
    Restores call within frames (Routine.request request) :=
  leads_request request fun m hm => (h m).trans hm

theorem Restores.bind {routine : Routine H α} {next : α → Routine H β}
    (h : Restores call within frames routine)
    (hnext : ∀ result, Restores call within frames (next result)) :
    Restores call within frames (routine >>= next) :=
  Leads.bind h hnext fun _ _ hu => hu

theorem Restores.attempt {routine : Routine H α} (h : Restores call within frames routine) :
    Restores call within frames routine.attempt :=
  Leads.attempt h fun _ _ hu => hu

theorem restores_ofExcept (outcome : Except RuntimeError α) :
    Restores call within frames (ofExcept outcome) := by
  cases outcome with
  | ok result => exact restores_pure result
  | error error => exact restores_fail error

/-! ### Calls -/

/-- What follows the question for the depth knows how many frames there are. -/
theorem leads_depth_bind {next : Nat → Routine H β}
    {ending : Except RuntimeError β → Machine H → Prop}
    (h : Leads call within (fun m => m.stack = frames) (next frames.length) ending) :
    Leads call within (fun m => m.stack = frames) (depth >>= next) ending := by
  intro m hm halong outcome u hrun
  subst hm
  exact h m rfl halong.2 outcome u hrun

/-- While a function is running there is more than the frames that were there before, unless it
could not be entered. -/
def Running (frames : List Frame) (outcome : Except RuntimeError α) (u : Machine H) : Prop :=
  match outcome with
  | .ok _ => u.RestsOn frames
  | .error _ => u.stack = frames

theorem leads_enter (frame : Frame) :
    Leads call within (fun m => m.stack = frames) (enter frame) (Running frames) := by
  intro m hm _ outcome u hrun
  rw [run_enter] at hrun
  split at hrun
  · cases hrun
    exact ⟨hm ▸ List.suffix_cons _ _, by simp [Machine.depth, hm]⟩
  · cases hrun
    exact hm

theorem leads_invokeBody (hcall : Spares call within) (function : FunctionId)
    (arguments : List Value) :
    Leads call within (fun m => m.RestsOn frames) (invokeBody function arguments)
      fun _ u => u.RestsOn frames := by
  intro m hm halong outcome u hrun
  rw [invokeBody, run] at hrun
  split at hrun
  · next results v hv =>
    have hrests := hcall _ _ _ _ _ _ halong.1 hm hv
    cases results <;> cases hrun <;> exact hrests
  · cases hrun

theorem leads_truncate :
    Leads call within (fun m => m.RestsOn frames) (truncate frames.length)
      fun _ u => u.stack = frames :=
  leads_request _ fun _ hm => hm.stack_truncate

/-- The frame of a function, and all that was pushed onto it, is dropped when the function is
through. -/
theorem restores_callFunction (hcall : Spares call within) (function : FunctionId)
    (arguments : List Value) :
    Restores call within frames (callFunction function arguments) := by
  have hbody : Leads call within (fun m => m.RestsOn frames)
      (invokeBody function arguments).attempt (Running frames) :=
    (leads_invokeBody hcall function arguments).attempt fun _ _ hu => hu
  refine leads_depth_bind (Leads.bind (restores_request _ fun _ => rfl) (fun name => ?_) ?_)
  swap
  · exact fun _ _ hu => hu
  refine (leads_enter _).bind (fun _ => ?_) fun _ _ hu => hu
  refine hbody.bind (fun results => ?_) fun _ _ hu => hu
  exact leads_truncate.bind (fun _ => restores_ofExcept results) fun _ _ hu => hu

/-- What is plain gives the stack back. -/
theorem Plain.restores {routine : Routine H α} (h : routine.Plain) (hcall : Spares call within) :
    Restores call within frames routine := by
  induction h with
  | pure result => exact restores_pure result
  | fail error => exact restores_fail error
  | endless => exact restores_endless
  | request request hquiet =>
    exact restores_request request fun m => m.stack_perform_of_isQuiet hquiet
  | bind _ _ ih ihnext => exact ih.bind ihnext
  | callFunction function arguments => exact restores_callFunction hcall function arguments

end Routine

end LuaLang
