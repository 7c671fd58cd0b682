import Mathlib
import LuaLang.Library.Base
import LuaLang.Proofs.Machine.Assignment
import LuaLang.Proofs.Machine.Course
import LuaLang.Proofs.Machine.Operations
import LuaLang.Proofs.Machine.ProtectedCalls

/-!
# Protected metatables

A metatable can say what is to be shown in its place, and then it cannot be changed for another one.
Only one function of the library changes metatables, and it looks at what the old one says right
before it does. So a protected metatable stays where it is as long as nobody takes back what it
says, whatever else programs do: with the table, with other entries of the metatable, with the
metatable of the metatable, in handlers and in protected calls.

## Main definitions

* `Routine.Ordinary`: what changes metatables by way of the library only.
* `Request.Respects`: a request does not change a protected metatable.
* `Machine.Protects`: a table has a protected metatable.
* `Machine.Shields`: its metatable can neither be changed nor be seen.

## Main statements

* `Routine.ordinary_operations`, `Library.ordinary_body`: operations are ordinary.
* `Routine.Ordinary.asks`: what is ordinary respects protected metatables.
* `Machine.Protects.perform`: a request that respects them keeps a table protected.
* `Machine.protected_metatable_stays`: what follows for all runs.
-/

namespace LuaLang

variable {H : Host} {α : Type} {m : Machine H} {id metatable : TableId} {shown : Value}

/-! ## What is ordinary -/

/-- Any request but for a change of the metatable of a table. -/
def Request.KeepsMetatables : Request H → Prop
  | .setMetatable .. => False
  | _ => True

theorem Request.IsModest.keepsMetatables {request : Request H} (h : request.IsModest) :
    request.KeepsMetatables := by
  cases request with
  | setMetatable => exact h
  | _ => trivial

namespace Routine

/-- What changes metatables by way of the library only. Apart from that it may ask for anything,
invoke any function, and catch errors. -/
inductive Ordinary : {α : Type} → Routine H α → Prop where
  | pure {α : Type} (result : α) : Ordinary (pure result)
  | fail {α : Type} (error : RuntimeError) : Ordinary (fail error : Routine H α)
  | endless {α : Type} : Ordinary (endless : Routine H α)
  | request (request : Request H) (h : request.KeepsMetatables) : Ordinary (Routine.request request)
  | invokeBody (function : FunctionId) (arguments : List Value) :
    Ordinary (invokeBody function arguments)
  | setmetatable (arguments : List Value) : Ordinary (Library.setmetatable arguments)
  | bind {α β : Type} {routine : Routine H α} {next : α → Routine H β} (h : Ordinary routine)
    (hnext : ∀ result, Ordinary (next result)) : Ordinary (routine >>= next)
  | attempt {α : Type} {routine : Routine H α} (h : Ordinary routine) : Ordinary routine.attempt

theorem ordinary_depth : Ordinary (depth : Routine H Nat) :=
  .bind (.request _ trivial) fun _ => .pure _

theorem ordinary_fault (error : Fault) : Ordinary (fault error : Routine H α) :=
  .bind (.request _ trivial) fun _ => .fail _

theorem ordinary_enter (frame : Frame) : Ordinary (enter frame : Routine H Unit) := by
  refine .bind (.request _ trivial) fun entered => ?_
  cases entered with
  | true => exact .pure ()
  | false => exact ordinary_fault _

theorem ordinary_ofExcept (outcome : Except RuntimeError α) :
    Ordinary (ofExcept outcome : Routine H α) := by
  cases outcome with
  | ok result => exact .pure result
  | error error => exact .fail error

theorem ordinary_callFunction (function : FunctionId) (arguments : List Value) :
    Ordinary (callFunction function arguments : Routine H (List Value)) := by
  refine .bind ordinary_depth fun before => .bind (.request _ trivial) fun name => ?_
  refine .bind (ordinary_enter _) fun _ => .bind (.attempt (.invokeBody _ _)) fun results => ?_
  exact .bind (.request _ trivial) fun _ => ordinary_ofExcept results

theorem Modest.ordinary {routine : Routine H α} (h : routine.Modest) : routine.Ordinary := by
  induction h with
  | pure result => exact .pure result
  | fail error => exact .fail error
  | endless => exact .endless
  | request request h => exact .request request h.keepsMetatables
  | bind _ _ ih ihnext => exact .bind ih ihnext
  | callFunction function arguments => exact ordinary_callFunction function arguments

theorem ordinary_operations : OfOperations fun routine : Routine H _ => routine.Ordinary :=
  ofOperations_of_modest Modest.ordinary .setmetatable

end Routine

namespace Library

open Routine

theorem ordinary_pcall (arguments : List Value) :
    Ordinary (pcall arguments : Routine H (List Value)) := by
  refine .bind (modest_anyArgument _ _ _).ordinary fun function => .bind ordinary_depth fun _ => ?_
  refine .bind (modest_callByCount _ _).ordinary.attempt fun outcome => ?_
  cases outcome with
  | ok results => exact .pure _
  | error e => exact .bind (.request _ trivial) fun _ => .pure _

/-- Every function of the library is ordinary. -/
theorem ordinary_body (function : Builtin) (arguments : List Value) :
    Ordinary (body function arguments : Routine H (List Value)) := by
  by_cases h : function = .pcall
  · rw [h]
    exact ordinary_pcall arguments
  · exact ordinary_operations.body function h arguments

end Library

theorem Bodies.ordinary {procedures : H.Procedure → List Value → Routine H (List Value)}
    (h : ∀ procedure arguments, (procedures procedure arguments).Ordinary) (code : Code H)
    (arguments : List Value) : (Bodies.ofHost procedures code arguments).Ordinary := by
  cases code with
  | builtin function => exact Library.ordinary_body function arguments
  | procedure procedure => exact h procedure arguments

/-! ## The function that changes metatables -/

/-- Whether the metatable of a table forbids to change it. -/
def Machine.isProtected (m : Machine H) (id : TableId) : Bool :=
  match (m.table id).metatable with
  | some metatable => (m.table metatable).contains Library.protection
  | none => false

/-- The metatable of a table is not changed while it is protected. -/
def Request.Respects (m : Machine H) : Request H → Prop
  | .setMetatable id _ => m.isProtected id = false
  | _ => True

theorem Request.KeepsMetatables.respects {request : Request H} (h : request.KeepsMetatables) :
    request.Respects m := by
  cases request with
  | setMetatable => exact h.elim
  | _ => trivial

namespace Library

open Routine

variable {call : Invoker H} {within : FunctionId → List Value → Machine H → Prop}

/-- What is done with good arguments. -/
def changeMetatable (id : TableId) (metatable : Option TableId) : Routine H (List Value) := do
  if ← isProtected id then fault .protectedMetatable
  else
    setMetatable id metatable
    return [.table id]

/-- Whatever the arguments are, they are at fault or there is a table to change. -/
theorem setmetatable_cases (arguments : List Value) :
    (∃ error, (setmetatable arguments : Routine H (List Value)) = fault error) ∨
      ∃ id metatable, Value.nth arguments 0 = .table id ∧
        (setmetatable arguments : Routine H (List Value)) = changeMetatable id metatable := by
  unfold setmetatable tableArgument metatableArgument
  cases Value.nth arguments 0 with
  | table id =>
    cases Value.nth arguments 1 with
    | nil => exact .inr ⟨id, none, rfl, rfl⟩
    | table metatable => exact .inr ⟨id, some metatable, rfl, rfl⟩
    | _ => exact .inl ⟨_, rfl⟩
  | _ => exact .inl ⟨_, rfl⟩

/-- What a metatable, if there is one, says about a change. -/
def forbids : Option TableId → Routine H Bool
  | some metatable => do return (← table metatable).contains protection
  | none => return false

theorem run_isProtected (id : TableId) :
    (isProtected id).run call m = some (.ok (m.isProtected id), m) := by
  change (forbids (m.table id).metatable).run call m = _
  rw [Machine.isProtected]
  cases (m.table id).metatable <;> rfl

theorem asks_isProtected (id : TableId) :
    (isProtected id).Asks call (fun u request => request.Respects u) within m := by
  change True ∧ (forbids (m.table id).metatable).Asks call (fun u request => request.Respects u)
    within m
  refine ⟨trivial, ?_⟩
  cases (m.table id).metatable with
  | none => trivial
  | some metatable => exact ⟨trivial, trivial⟩

/-- The function that changes metatables respects the protected ones. Nothing happens between its
look at the old metatable and the change. -/
theorem asks_setmetatable (arguments : List Value) (m : Machine H) :
    (setmetatable arguments).Asks call (fun u request => request.Respects u) within m := by
  obtain ⟨error, heq⟩ | ⟨id, metatable, -, heq⟩ := setmetatable_cases (H := H) arguments
  · rw [heq]
    exact ⟨trivial, trivial⟩
  · rw [heq]
    refine (asks_bind _ _ m).2 ⟨asks_isProtected id, fun answer u hrun => ?_⟩
    rw [run_isProtected] at hrun
    cases hrun
    split
    · exact ⟨trivial, trivial⟩
    · next h => exact ⟨eq_false_of_ne_true h, trivial⟩

end Library

/-- What is ordinary respects protected metatables if the functions do that it invokes. -/
theorem Routine.Ordinary.asks {call : Invoker H}
    {within : FunctionId → List Value → Machine H → Prop} {routine : Routine H α}
    (h : routine.Ordinary) (hwithin : ∀ function arguments m, within function arguments m)
    (m : Machine H) : routine.Asks call (fun u request => request.Respects u) within m := by
  induction h generalizing m with
  | pure | fail | endless => trivial
  | request request h => exact ⟨h.respects, trivial⟩
  | invokeBody function arguments =>
    refine ⟨hwithin function arguments m, fun results u _ => ?_⟩
    cases results <;> trivial
  | setmetatable arguments => exact Library.asks_setmetatable arguments m
  | bind _ _ ih ihnext =>
    exact (asks_bind _ _ m).2 ⟨ih m, fun result u _ => ihnext result u⟩
  | attempt _ ih => exact (asks_attempt _ m).2 (ih m)

/-! ## Protected tables -/

/-- A value is put under the key in the table. -/
def Request.Sets (id : TableId) (key : Value) : Request H → Prop
  | .set other k _ => other = id ∧ k.rawEqual key = true
  | _ => False

namespace Machine

/-- The table has the metatable, which says what is shown in its place. -/
structure Protects (m : Machine H) (id metatable : TableId) (shown : Value) : Prop where
  linked : (m.table id).metatable = some metatable
  shows : (m.table metatable).get Library.protection = shown
  valid : (m.table metatable).Valid

theorem Protects.congr {u : Machine H} (h : m.Protects id metatable shown)
    (htables : u.tables = m.tables) : u.Protects id metatable shown := by
  have htable : ∀ other, u.table other = m.table other := fun other => by
    rw [table, table, htables]
  exact ⟨htable id ▸ h.linked, htable metatable ▸ h.shows, htable metatable ▸ h.valid⟩

theorem Protects.isProtected (h : m.Protects id metatable shown) (hshown : shown ≠ .nil) :
    m.isProtected id = true := by
  rw [Machine.isProtected, h.linked]
  dsimp only
  rw [Table.contains, h.shows, Table.isNil_eq_false_iff.2 hshown]
  rfl

theorem Protects.addTable (h : m.Protects id metatable shown) (hshown : shown ≠ .nil) (t : Table) :
    (m.addTable t).2.Protects id metatable shown := by
  have hid : m.table id ≠ .empty := by
    intro hempty
    have hlinked := h.linked
    rw [hempty] at hlinked
    cases hlinked
  have hmetatable : m.table metatable ≠ .empty := by
    intro hempty
    have hshows := h.shows
    rw [hempty, Table.get_empty] at hshows
    exact hshown hshows.symm
  constructor
  · rw [table_addTable_of_ne t hid]
    exact h.linked
  · rw [table_addTable_of_ne t hmetatable]
    exact h.shows
  · rw [table_addTable_of_ne t hmetatable]
    exact h.valid

/-- Entries may change but for the one that protects. -/
theorem Protects.putEntry (h : m.Protects id metatable shown) {other : TableId} {key : Value}
    (hkey : Table.keyFault? key = none)
    (hother : ¬(other = metatable ∧ key.rawEqual Library.protection = true)) (value : Value) :
    (m.putEntry other key value).Protects id metatable shown := by
  have hfine := (Table.keyFault?_eq_none_iff key).1 hkey
  constructor
  · rw [table_putEntry]
    split
    · next hid =>
      rw [Table.metatable_put, ← hid.1]
      exact h.linked
    · exact h.linked
  · rw [table_putEntry]
    split
    · next hid =>
      obtain ⟨rfl, -⟩ := hid
      rw [(h.valid.put value hfine).2, if_neg]
      · exact h.shows
      · intro hform
        exact hother ⟨rfl, (Value.rawEqual_iff key _).2 ⟨hform, hfine.2⟩⟩
    · exact h.shows
  · rw [table_putEntry]
    split
    · next hid =>
      obtain ⟨rfl, -⟩ := hid
      exact (h.valid.put value hfine).1
    · exact h.valid

/-- Metatables may change but for the protected one. -/
theorem Protects.setMetatable (h : m.Protects id metatable shown) {other : TableId}
    (hother : other ≠ id) (changed : Option TableId) :
    (m.setMetatable other changed).Protects id metatable shown := by
  constructor
  · rw [table_setMetatable, if_neg fun hid => hother hid.1.symm]
    exact h.linked
  · rw [table_setMetatable]
    split
    · next hid =>
      obtain ⟨rfl, -⟩ := hid
      exact h.shows
    · exact h.shows
  · rw [table_setMetatable]
    split
    · next hid =>
      obtain ⟨rfl, -⟩ := hid
      exact h.valid.withMetatable changed
    · exact h.valid

/-- A table stays protected in every request that respects protected metatables and does not set
what this one says. -/
theorem Protects.perform (h : m.Protects id metatable shown) (hshown : shown ≠ .nil)
    {request : Request H} (hrespects : request.Respects m)
    (hsets : ¬request.Sets metatable Library.protection) :
    (m.perform request).2.Protects id metatable shown := by
  cases request with
  | addTable t => exact h.addTable hshown t
  | set other key value =>
    rw [Machine.perform]
    split
    · exact h
    · next hkey => exact h.putEntry hkey hsets value
  | setMetatable other changed =>
    refine h.setMetatable ?_ changed
    rintro rfl
    have hrespects : m.isProtected other = false := hrespects
    rw [h.isProtected hshown] at hrespects
    cases hrespects
  | prepare slot =>
    rw [Machine.perform, Machine.prepare]
    split <;> exact h.congr rfl
  | enter frame =>
    rw [Machine.perform, Machine.enter]
    split <;> exact h.congr rfl
  | _ => exact h.congr rfl

/-! ## What the library does with them -/

/-- The table has the metatable. However the functions of the library are called that change the
metatable of the table or show it, the first fails and changes nothing, and the other gives
something else. -/
structure Shields (id metatable : TableId) (m : Machine H) : Prop where
  linked : (m.table id).metatable = some metatable
  refuses : ∀ (call : Routine.Invoker H) (arguments : List Value), ∃ error,
    (Library.setmetatable (.table id :: arguments)).run call m = some (.error error, m)
  hides : ∀ (call : Routine.Invoker H) (arguments : List Value), ∃ value,
    (Library.getmetatable (.table id :: arguments)).run call m = some (.ok [value], m) ∧
      value ≠ .table metatable

end Machine

namespace Library

open Routine

variable {call : Invoker H}

/-- The metatable of a protected table is not changed, whatever it is to be changed for. -/
theorem run_setmetatable_of_isProtected (h : m.isProtected id = true) (arguments : List Value) :
    ∃ error, (setmetatable (.table id :: arguments)).run call m = some (.error error, m) := by
  obtain ⟨error, heq⟩ | ⟨other, changed, hother, heq⟩ :=
    setmetatable_cases (H := H) (.table id :: arguments)
  · rw [heq]
    exact ⟨_, rfl⟩
  · obtain rfl : id = other := Value.table.inj hother
    rw [heq, changeMetatable, run_bind, run_isProtected, h]
    exact ⟨_, rfl⟩

/-- What the metatable says is shown in its place. -/
theorem run_getmetatable_of_protects (h : m.Protects id metatable shown) (hshown : shown ≠ .nil)
    (arguments : List Value) :
    (getmetatable (.table id :: arguments)).run call m = some (.ok [shown], m) := by
  have hvalue : (anyArgument .getmetatable (.table id :: arguments) 0 : Routine H Value) =
      pure (.table id) := rfl
  rw [getmetatable, hvalue, pure_bind, run_bind, run_metatableOf, Machine.metatableOf, h.linked]
  change some (Except.ok [if ((m.table metatable).get protection).isNil then .table metatable
    else (m.table metatable).get protection], m) = _
  rw [h.shows, Table.isNil_eq_false_iff.2 hshown]
  rfl

end Library

namespace Machine

open Routine

theorem Protects.shields (h : m.Protects id metatable shown) (hshown : shown ≠ .nil)
    (hother : shown ≠ .table metatable) : m.Shields id metatable where
  linked := h.linked
  refuses _ arguments := Library.run_setmetatable_of_isProtected (h.isProtected hshown) arguments
  hides _ arguments := ⟨shown, Library.run_getmetatable_of_protects h hshown arguments, hother⟩

/-! ## Whole runs -/

/-- Operators, calls of all sorts and library functions are ordinary, and so is what is put together
from them. If the functions of the host are ordinary too, and a table has a metatable that says
something else than itself is to be shown in its place, then it is shielded at the start of an
ordinary run, after each request, at every moment of all that is invoked, and at the end, with a
result or with an error: as long as what the metatable says is not set on the way. -/
theorem protected_metatable_stays
    (procedures : H.Procedure → List Value → Routine H (List Value)) (levels : Nat) :
    let bodies := Bodies.ofHost procedures
    let call := Machine.invoke bodies levels
    OfOperations (fun routine : Routine H _ => routine.Ordinary) ∧
    (∀ function arguments, (Library.body function arguments : Routine H (List Value)).Ordinary) ∧
    ((∀ procedure arguments, (procedures procedure arguments).Ordinary) →
      ∀ (m : Machine H) (id metatable : TableId) (shown : Value) (α : Type) (routine : Routine H α),
        m.Protects id metatable shown → shown ≠ .nil → shown ≠ .table metatable →
        routine.Ordinary →
        routine.Asks call (fun _ request => ¬request.Sets metatable Library.protection)
          (AsksThroughout bodies (fun _ request => ¬request.Sets metatable Library.protection)
            levels) m →
        m.Shields id metatable ∧
        routine.Along call (Shields id metatable)
          (Throughout bodies (fun _ _ => Shields id metatable) levels) m ∧
        ∀ outcome u, routine.run call m = some (outcome, u) → u.Shields id metatable) := by
  intro bodies call
  refine ⟨ordinary_operations, Library.ordinary_body, ?_⟩
  intro hprocedures m id metatable shown α routine hm hshown hother hroutine hsets
  have hkept : ∀ (u : Machine H) request, u.Protects id metatable shown →
      request.Respects u ∧ ¬request.Sets metatable Library.protection →
        (u.perform request).2.Protects id metatable shown :=
    fun u request hu h => hu.perform hshown h.1 h.2
  have hshields : ∀ u : Machine H, u.Protects id metatable shown → u.Shields id metatable :=
    fun u hu => hu.shields hshown hother
  have hwithin : ∀ function arguments u, AsksThroughout bodies
      (fun u request => request.Respects u) levels function arguments u :=
    asksThroughout_of_bodies (fun code arguments _ _ u h =>
      (Bodies.ordinary hprocedures code arguments).asks h u) levels
  obtain ⟨halong, hend⟩ := along_of_asks hshields hkept
    (throughout_of_asks hshields hkept levels) hm
    ((hroutine.asks hwithin m).and hsets fun _ _ _ => AsksThroughout.and)
  exact ⟨hshields m hm, halong, fun outcome u hrun => hshields u (hend outcome u hrun)⟩

/-- The metatable of a table is to be taken away in a protected call. -/
theorem protected_metatable_stays_pcall :
    let host : Host := ⟨Unit, Unit⟩
    let call := Machine.invoke (Bodies.ofHost fun (_ : host.Procedure) _ => pure []) 1
    let m : Machine host :=
      { start 5 () with
        tables := #[{ Table.empty with metatable := some ⟨1⟩ },
          Table.empty.put Library.protection (.string "hidden")]
        functions := #[.ofBuiltin .setmetatable] }
    ∃ value u, (Library.pcall [.function ⟨0⟩, .table ⟨0⟩]).run call m =
      some (.ok [.boolean false, value], u) ∧ u.Shields ⟨0⟩ ⟨1⟩ := by
  intro host call m
  obtain ⟨-, hbody, hstays⟩ :=
    protected_metatable_stays (H := host) (fun (_ : host.Procedure) _ => pure []) 1
  have hkey : Library.protection ≠ .nil ∧ Library.protection ≠ .number .nan := by
    simp [Library.protection]
  obtain ⟨hvalid, hget⟩ := Table.valid_empty.put (.string "hidden") hkey
  have hm : m.Protects ⟨0⟩ ⟨1⟩ (.string "hidden") := ⟨rfl, (hget _).trans (if_pos rfl), hvalid⟩
  -- The function finds the tables as they are, in a frame of its own.
  let u : Machine host := { m with prepared := [.call 1] }
  let v : Machine host := { u with stack := [.native "setmetatable"] }
  have hv : v.isProtected ⟨0⟩ = true := (hm.congr (u := v) rfl).isProtected (by simp)
  obtain ⟨error, hcall⟩ : ∃ error, call ⟨0⟩ [.table ⟨0⟩] v = some (.error error, v) :=
    Library.run_setmetatable_of_isProtected hv []
  have hcalled :
      (callByCount (.function ⟨0⟩) [.table ⟨0⟩]).run call m = some (.error error, u) := by
    change (callFunction ⟨0⟩ [.table ⟨0⟩]).run call u = _
    rw [run_callFunction, callOnce, if_pos (by decide)]
    change Option.map _ (call ⟨0⟩ [.table ⟨0⟩] v) = _
    rw [hcall]
    rfl
  have hrun : (Library.pcall [.function ⟨0⟩, .table ⟨0⟩]).run call m =
      some (.ok [.boolean false, error.value], u) := by
    rw [Library.run_pcall, hcalled]
    rfl
  refine ⟨_, _, hrun, (hstays ?_ m _ _ _ _ _ hm ?_ ?_ (hbody .pcall _) ?_).2.2 _ _ hrun⟩
  · exact fun _ _ => .pure []
  · simp
  · simp
  · -- The requests are to push the frame and to drop it, and what the function asks.
    refine ⟨id, id, id, id, id, ?_, fun results u _ => ?_⟩
    · refine ⟨id, id, ?_⟩
      change Asks _ _ _ (if _ = true then _ else _) _
      split <;> exact ⟨id, trivial⟩
    · cases results with
      | ok => exact ⟨id, trivial⟩
      | error => exact ⟨id, id, trivial⟩

end Machine

end LuaLang
