import Mathlib
import LuaLang.Proofs.Machine.Course
import LuaLang.Proofs.Machine.Operations

/-!
# Slots

The machine keeps a record of the ways of dispatching that were used so far. A call through a slot
is the plain call on the machine with that slot filled, and nothing but the question for the number
of filled slots looks at the record. So machines that differ in it alone cannot be told apart by
anything that does not ask this question, however deep its calls go.

## Main definitions

* `Machine.forget`, `Routine.Ending.seen`: what is left without the record.
* `Routine.Blind`: a routine that never asks how many slots are filled.
* `Routine.Oblivious`: something whose visible ending does not depend on the record.

## Main statements

* `Routine.Blind.oblivious`: blind routines are oblivious if the functions that they invoke are.
* `Machine.oblivious_invoke`: so are functions, if all bodies are blind.
* `Machine.slots_unobservable`: what follows for calls, operators and the library.
-/

namespace LuaLang

variable {H : Host} {α β : Type}

/-! ## Machines without the record -/

namespace Machine

/-- The machine without its record of filled slots. -/
def forget (m : Machine H) : Machine H :=
  { m with prepared := [] }

@[simp]
theorem forget_prepare (m : Machine H) (slot : Slot) : (m.prepare slot).forget = m.forget := by
  rw [prepare]
  split <;> rfl

theorem outlineWithin_forget (m : Machine H) (levels : Nat) (opened : List TableId)
    (value : Value) :
    m.forget.outlineWithin levels opened value = m.outlineWithin levels opened value := by
  induction levels generalizing opened value with
  | zero => rfl
  | succ levels ih =>
    have hlevel : m.forget.outlineWithin levels = m.outlineWithin levels :=
      funext fun opened => funext fun value => ih opened value
    cases value with
    | table id =>
      rw [outlineWithin, outlineWithin, hlevel]
      rfl
    | _ => rfl

/-- All answers but one are the same without the record, and so is the machine after them. -/
theorem perform_forget (m : Machine H) {request : Request H} (h : request ≠ .populated) :
    (m.forget.perform request).1 = (m.perform request).1 ∧
      (m.forget.perform request).2.forget = (m.perform request).2.forget := by
  cases request with
  | populated => exact absurd rfl h
  | set id key value =>
    rw [perform, perform]
    split <;> exact ⟨rfl, rfl⟩
  | prepare slot => exact ⟨rfl, by rw [perform, perform, forget_prepare, forget_prepare]; rfl⟩
  | enter frame =>
    have hroom : (m.forget.depth < m.forget.maxDepth) = (m.depth < m.maxDepth) := rfl
    simp only [perform, enter, hroom]
    split <;> exact ⟨rfl, rfl⟩
  | outline value => exact ⟨m.outlineWithin_forget _ [] value, rfl⟩
  | _ => exact ⟨rfl, rfl⟩

/-- A slot that is filled stays so. -/
theorem mem_prepared_perform {m : Machine H} {slot : Slot} (request : Request H)
    (h : slot ∈ m.prepared) : slot ∈ (m.perform request).2.prepared := by
  cases request with
  | set id key value =>
    rw [perform]
    split <;> exact h
  | prepare other =>
    rw [perform, prepare]
    split
    · exact h
    · exact List.mem_cons_of_mem _ h
  | enter frame =>
    rw [perform, enter]
    split <;> exact h
  | _ => exact h

end Machine

namespace Routine

/-! ## Blind routines -/

/-- A routine that never asks how many slots are filled. -/
def Blind : Routine H α → Prop
  | done _ => True
  | fail _ => True
  | endless => True
  | ask request next => request ≠ .populated ∧ ∀ answer, (next answer).Blind
  | invoke _ _ next => ∀ results, (next results).Blind

theorem blind_request (request : Request H) (h : request ≠ .populated) :
    (Routine.request request).Blind :=
  ⟨h, fun _ => trivial⟩

theorem Blind.bind {routine : Routine H α} {next : α → Routine H β} (h : routine.Blind)
    (hnext : ∀ result, (next result).Blind) : (routine >>= next).Blind := by
  change (routine.bind next).Blind
  induction routine with
  | done result => exact hnext result
  | fail | endless => trivial
  | ask request rest ih => exact ⟨h.1, fun answer => ih answer (h.2 answer)⟩
  | invoke function arguments rest ih => exact fun results => ih results (h results)

theorem Blind.attempt {routine : Routine H α} (h : routine.Blind) : routine.attempt.Blind := by
  induction routine with
  | done | fail | endless => trivial
  | ask request rest ih => exact ⟨h.1, fun answer => ih answer (h.2 answer)⟩
  | invoke function arguments rest ih => exact fun results => ih results (h results)

theorem blind_ofExcept (outcome : Except RuntimeError α) :
    (ofExcept outcome : Routine H α).Blind := by
  cases outcome <;> trivial

theorem blind_depth : (depth : Routine H Nat).Blind :=
  (blind_request .stack nofun).bind fun _ => trivial

theorem blind_callFunction (function : FunctionId) (arguments : List Value) :
    (callFunction function arguments : Routine H (List Value)).Blind := by
  have henter : ∀ frame, (enter frame : Routine H Unit).Blind := by
    refine fun frame => (blind_request (.enter frame) nofun).bind fun entered => ?_
    cases entered with
    | true => trivial
    | false => exact (blind_request .stack nofun).bind fun _ => trivial
  have hbody : (invokeBody function arguments : Routine H (List Value)).Blind := blind_ofExcept
  refine blind_depth.bind fun before => ?_
  refine (blind_request (.functionName function) nofun).bind fun name => ?_
  refine (henter _).bind fun _ => hbody.attempt.bind fun results => ?_
  exact (blind_request (.truncate before) nofun).bind fun _ => blind_ofExcept results

/-- Nothing that is plain asks for the slots. -/
theorem Plain.blind {routine : Routine H α} (h : routine.Plain) : routine.Blind := by
  induction h with
  | pure | fail | endless => trivial
  | request request hquiet =>
    refine blind_request request fun hpopulated => ?_
    rw [hpopulated] at hquiet
    exact hquiet
  | bind _ _ ih ihnext => exact ih.bind ihnext
  | callFunction function arguments => exact blind_callFunction function arguments

end Routine

namespace Library

open Routine

theorem blind_pcall (arguments : List Value) :
    (pcall arguments : Routine H (List Value)).Blind := by
  refine (plain_anyArgument _ _ _).blind.bind fun function => blind_depth.bind fun before => ?_
  refine (plain_callByCount _ _).blind.attempt.bind fun outcome => ?_
  cases outcome with
  | ok results => trivial
  | error e => exact (blind_request (.truncate before) nofun).bind fun _ => trivial

theorem blind_body (function : Builtin) (arguments : List Value) :
    (body function arguments : Routine H (List Value)).Blind := by
  by_cases h : function = .pcall
  · rw [h]
    exact blind_pcall arguments
  · exact (plain_body h arguments).blind

end Library

/-! ## What cannot be told apart -/

namespace Routine

/-- What is left of an ending without the record of filled slots. -/
def Ending.seen (ending : Ending H α) : Ending H α :=
  ending.map fun (outcome, m) => (outcome, m.forget)

/-- Something that ends in the same way, as far as can be seen, with and without the record. -/
def Oblivious (ends : Machine H → Ending H α) : Prop :=
  ∀ m, (ends m.forget).seen = (ends m).seen

/-- Machines that differ in their records alone lead to the same. -/
theorem Oblivious.seen_eq {ends : Machine H → Ending H α} (h : Oblivious ends) {m n : Machine H}
    (hmn : m.forget = n.forget) : (ends m).seen = (ends n).seen := by
  rw [← h m, hmn, h n]

/-- Endings look the same if nothing comes of either, or if both have the same outcome and leave
machines that differ in their records alone. -/
theorem Ending.seen_eq_seen {first second : Ending H α} (h : first.seen = second.seen) :
    (first = none ∧ second = none) ∨
      ∃ outcome m n, first = some (outcome, m) ∧ second = some (outcome, n) ∧
        m.forget = n.forget := by
  cases first with
  | none =>
    cases second with
    | none => exact .inl ⟨rfl, rfl⟩
    | some => cases h
  | some first =>
    cases second with
    | none => cases h
    | some second =>
      obtain ⟨outcome, m⟩ := first
      obtain ⟨outcome', n⟩ := second
      obtain ⟨rfl, hmn⟩ := Prod.mk.inj (Option.some.inj h)
      exact .inr ⟨outcome, m, n, rfl, rfl, hmn⟩

/-- A blind routine is oblivious if all that it invokes is. -/
theorem Blind.oblivious {call : Invoker H} {routine : Routine H α} (h : routine.Blind)
    (hcall : ∀ function arguments, Oblivious (call function arguments)) :
    Oblivious (routine.run call) := by
  induction routine with
  | done | fail | endless => exact fun m => rfl
  | ask request next ih =>
    intro m
    obtain ⟨hanswer, hafter⟩ := m.perform_forget h.1
    simp only [run, hanswer]
    exact (ih _ (h.2 _)).seen_eq hafter
  | invoke function arguments next ih =>
    intro m
    rw [run, run]
    obtain ⟨hu, hv⟩ | ⟨results, u, v, hu, hv, huv⟩ :=
      Ending.seen_eq_seen (hcall function arguments m)
    · rw [hu, hv]
    · rw [hu, hv]
      exact (ih results (h results)).seen_eq huv

/-! ## Calls through slots -/

variable {call : Invoker H}

/-- A call through a slot is the plain call on the machine with that slot filled. -/
theorem run_callByCount (callee : Value) (arguments : List Value) (m : Machine H) :
    (callByCount callee arguments).run call m =
      (Routine.call callee arguments).run call
        (if arguments.length < 4 then m.prepare (.call arguments.length) else m) := by
  have hfit : Value.fit arguments.length arguments = arguments := by simp [Value.fit]
  rw [callByCount]
  split
  · rw [callPrepared, hfit]
    rfl
  · rfl

end Routine

/-! ## Whole programs -/

namespace Machine

open Routine

/-- Functions are oblivious if their bodies are blind. -/
theorem oblivious_invoke {bodies : Bodies H}
    (h : ∀ code arguments, (bodies code arguments).Blind) (levels : Nat) (function : FunctionId)
    (arguments : List Value) : Oblivious (Machine.invoke bodies levels function arguments) := by
  induction levels generalizing function arguments with
  | zero => exact fun m => rfl
  | succ levels ih =>
    intro m
    have hfunction : m.forget.function? function = m.function? function := rfl
    rw [Machine.invoke, Machine.invoke, hfunction]
    cases m.function? function with
    | none => rfl
    | some f => exact (h f.code arguments).oblivious ih m

theorem blind_ofHost {procedures : H.Procedure → List Value → Routine H (List Value)}
    (h : ∀ procedure arguments, (procedures procedure arguments).Blind) (code : Code H)
    (arguments : List Value) : (Bodies.ofHost procedures code arguments).Blind := by
  cases code with
  | builtin function => exact Library.blind_body function arguments
  | procedure procedure => exact h procedure arguments

/-- Calls by the number of arguments and prepared reads and writes are the plain ones on the machine
with the slot filled, and a slot that is filled stays so at every moment of every run. If the
functions of the host never ask how many slots are filled, then slots make no difference that can be
seen: prepared operations end as plain ones do, and every routine that does not ask that question,
whatever it is made of, has the same outcome on machines that differ in their slots alone and leaves
machines that differ in their slots alone. Requests other than that question, calls of all sorts,
operators and library functions do not ask it, nor does what is put together from such routines. -/
theorem slots_unobservable (procedures : H.Procedure → List Value → Routine H (List Value))
    (levels : Nat) :
    let bodies := Bodies.ofHost procedures
    let call := Machine.invoke bodies levels
    ((∀ callee arguments m, (callByCount callee arguments).run call m =
        (Routine.call callee arguments).run call
          (if arguments.length < 4 then m.prepare (.call arguments.length) else m)) ∧
      (∀ base key m, (indexPrepared base key).run call m =
        (index base key).run call (m.prepare .index)) ∧
      ∀ base key value m, (newIndexPrepared base key value).run call m =
        (newIndex base key value).run call (m.prepare .newIndex)) ∧
    (∀ (α : Type) (routine : Routine H α) (m : Machine H), ∀ slot ∈ m.prepared,
      routine.Along call (slot ∈ ·.prepared)
          (Throughout bodies (fun _ _ u => slot ∈ u.prepared) levels) m ∧
        ∀ outcome u, routine.run call m = some (outcome, u) → slot ∈ u.prepared) ∧
    ((∀ procedure arguments, (procedures procedure arguments).Blind) →
      (∀ callee arguments m, ((callByCount callee arguments).run call m).seen =
        ((Routine.call callee arguments).run call m).seen) ∧
      (∀ base key m, ((indexPrepared base key).run call m).seen =
        ((index base key).run call m).seen) ∧
      (∀ base key value m, ((newIndexPrepared base key value).run call m).seen =
        ((newIndex base key value).run call m).seen) ∧
      ∀ (α : Type) (routine : Routine H α), routine.Blind →
        ∀ m n : Machine H, m.forget = n.forget →
          (routine.run call m).seen = (routine.run call n).seen) ∧
    (∀ request : Request H, request ≠ .populated → (Routine.request request).Blind) ∧
    OfOperations (fun routine : Routine H _ => routine.Blind) ∧
    (∀ arguments, (Library.pcall arguments : Routine H (List Value)).Blind) ∧
    ∀ (α β : Type) (routine : Routine H α) (next : α → Routine H β), routine.Blind →
      (∀ result, (next result).Blind) → (routine >>= next).Blind := by
  intro bodies call
  have hoperations : OfOperations fun routine : Routine H _ => routine.Blind :=
    ofOperations_of_plain fun h => h.blind
  refine ⟨⟨run_callByCount, fun _ _ _ => rfl, fun _ _ _ _ => rfl⟩, ?_, fun hblind => ?_,
    blind_request, hoperations, Library.blind_pcall, fun _ _ _ _ h hnext => h.bind hnext⟩
  · intro α routine m slot hslot
    have hkept : ∀ (u : Machine H) request, slot ∈ u.prepared →
        slot ∈ (u.perform request).2.prepared := fun u request hu => mem_prepared_perform request hu
    exact along_of_kept hkept (throughout_of_kept bodies hkept levels) routine hslot
  · have hrun : ∀ (α : Type) (routine : Routine H α), routine.Blind →
        Oblivious (routine.run call) :=
      fun α routine h => h.oblivious (oblivious_invoke (blind_ofHost hblind) levels)
    refine ⟨fun callee arguments m => ?_, fun base key m => ?_, fun base key value m => ?_,
      fun α routine h m n => (hrun α routine h).seen_eq⟩
    · rw [run_callByCount]
      refine (hrun _ _ (hoperations.call callee arguments)).seen_eq ?_
      split
      · exact m.forget_prepare _
      · rfl
    · exact (hrun _ _ (hoperations.index base key)).seen_eq (m.forget_prepare .index)
    · exact (hrun _ _ (hoperations.newIndex base key value)).seen_eq (m.forget_prepare .newIndex)

/-- A function that is called through a slot reads from nil through another one, and fails. It makes
no difference whether none or all of the slots are filled before. -/
theorem slots_unobservable_filled :
    let host : Host := ⟨Unit, Unit⟩
    let procedures : host.Procedure → List Value → Routine host (List Value) :=
      fun _ arguments => do
        let value ← indexPrepared (Value.first arguments) (.string "x")
        return [value]
    let call := Machine.invoke (Bodies.ofHost procedures) 1
    let m : Machine host := { start 5 () with functions := #[⟨"f", .procedure ()⟩] }
    let n : Machine host := { m with prepared := Slot.all }
    let called : Routine host (List Value) := callByCount (.function ⟨0⟩) [.nil]
    m.populated = 0 ∧ n.populated = 6 ∧
      (∃ error u, called.run call m = some (.error error, u) ∧ u.populated = 2) ∧
      (called.run call m).seen = (called.run call n).seen ∧
      (called.run call n).seen =
        ((Routine.call (.function ⟨0⟩) [.nil]).run call n).seen := by
  intro host procedures call m n called
  obtain ⟨-, -, hsame, -, hoperations, -, hbind⟩ := slots_unobservable procedures 1
  have hblind : ∀ procedure arguments, (procedures procedure arguments).Blind :=
    fun _ _ => hbind _ _ _ _ (hoperations.indexPrepared _ _) fun _ => trivial
  obtain ⟨hcall, -, -, hrun⟩ := hsame hblind
  exact ⟨by decide, by decide, ⟨_, _, rfl, by decide⟩,
    hrun _ called (hoperations.callByCount _ _) m n rfl, hcall _ _ n⟩

end Machine

end LuaLang
