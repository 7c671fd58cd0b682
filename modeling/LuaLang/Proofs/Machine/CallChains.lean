import Mathlib
import LuaLang.Proofs.Machine.Links
import LuaLang.Proofs.Table.History

/-!
# Calls along chains

The call of a value that is not a function goes on to its handler, with the value in front of the
arguments, and from there to the handler of the handler, until a function is met. So the function
gets every value on the way, the last one first, and then the arguments of the call. A call looks at
100 values: the function has to be one of them, and a chain that ends before it, or does not come to
it, runs nothing.

## Main definitions

* `Machine.Indirect`: no function is among the first values on a chain of callees.
* `Machine.calleesBefore`: what a link of the chain gets in front of the arguments.

## Main statements

* `Machine.callee_cases`: a chain comes to a function, ends before it, or goes on.
* `Routine.run_call_of_link`: calling a value is calling any link before the first function.
* `Routine.call_passes_callees`: what follows for all chains.
-/

namespace LuaLang

variable {H : Host} {m : Machine H} {callee value : Value} {arguments : List Value} {i links : Nat}

namespace Machine

/-! ## Chains of callees -/

/-- None of the first `count` values on the chain of callees is a function. -/
def Indirect (m : Machine H) (callee : Value) (count : Nat) : Prop :=
  ∀ i < count, ∀ id, m.link .call callee i ≠ some (.function id)

/-- The first `count` values on the chain of callees, the last one first. -/
def calleesBefore (m : Machine H) (callee : Value) (count : Nat) : List Value :=
  ((List.range count).filterMap (m.link .call callee)).reverse

theorem indirect_zero : m.Indirect callee 0 := by
  intro i hi
  omega

theorem Indirect.mono {count : Nat} (h : m.Indirect callee count) (hle : i ≤ count) :
    m.Indirect callee i :=
  fun j hj => h j (hj.trans_le hle)

theorem indirect_succ (hlink : m.link .call callee i = some value) :
    m.Indirect callee (i + 1) ↔ m.Indirect callee i ∧ ∀ id, value ≠ .function id := by
  rw [Indirect, Nat.forall_lt_succ_right, hlink]
  simp only [ne_eq, Option.some.injEq, Indirect]

theorem calleesBefore_succ (hlink : m.link .call callee i = some value) :
    m.calleesBefore callee (i + 1) = value :: m.calleesBefore callee i := by
  rw [calleesBefore, List.range_succ, List.filterMap_append, List.reverse_append]
  simp [hlink, calleesBefore]

/-- Among its first `count` values a chain of callees comes to a function, or it ends at something
else; or it goes on without a function. -/
theorem callee_cases (m : Machine H) (callee : Value) (count : Nat) :
    (m.Indirect callee count ∧ m.link .call callee count ≠ none) ∨
      ∃ i < count, m.Indirect callee i ∧ ((∃ id, m.link .call callee i = some (.function id)) ∨
        ∃ value, m.link .call callee i = some value ∧ (∀ id, value ≠ .function id) ∧
          m.metamethod value .call = none) := by
  induction count with
  | zero => exact .inl ⟨indirect_zero, Option.some_ne_none callee⟩
  | succ count ih =>
    obtain ⟨hindirect, hlink⟩ | ⟨i, hi, hstop⟩ := ih
    · obtain ⟨value, hvalue⟩ := Option.ne_none_iff_exists'.1 hlink
      by_cases hfunction : ∃ id, value = .function id
      · obtain ⟨id, rfl⟩ := hfunction
        exact .inr ⟨count, Nat.lt_succ_self count, hindirect, .inl ⟨id, hvalue⟩⟩
      · have hplain : ∀ id, value ≠ .function id := fun id hid => hfunction ⟨id, hid⟩
        cases hhandler : m.metamethod value .call with
        | none =>
          exact .inr ⟨count, Nat.lt_succ_self count, hindirect,
            .inr ⟨value, hvalue, hplain, hhandler⟩⟩
        | some handler =>
          refine .inl ⟨(indirect_succ hvalue).2 ⟨hindirect, hplain⟩, ?_⟩
          rw [link_succ hvalue, hhandler]
          exact Option.some_ne_none handler
    · exact .inr ⟨i, hi.trans (Nat.lt_succ_self count), hstop⟩

end Machine

namespace Routine

variable {call : Invoker H}

/-! ## One link -/

/-- A value that is not a function leaves the call to its handler, and comes in front of the
arguments. -/
theorem run_callWithin_of_plain (hplain : ∀ id, callee ≠ .function id) :
    (callWithin (links + 1) callee arguments).run call m =
      match m.metamethod callee .call with
      | some handler => (callWithin links handler (callee :: arguments)).run call m
      | none =>
        some (.error (.ofMessage m.stack ("attempt to call a " ++ callee.kind.name ++ " value")),
          m) := by
  have hthrough : (callWithin (links + 1) callee arguments : Routine H (List Value)) =
      callThrough links callee arguments := by
    cases callee with
    | function id => exact absurd rfl (hplain id)
    | _ => rfl
  rw [hthrough, callThrough, run_bind, run_metamethod]
  cases m.metamethod callee .call <;> rfl

/-! ## Whole chains -/

/-- Calling a value is calling any link before the first function, with the values before that link
in front of the arguments and fewer links to go. -/
theorem run_callWithin_of_link (hindirect : m.Indirect callee i)
    (hlink : m.link .call callee i = some value) (links : Nat) :
    (callWithin (links + i) callee arguments).run call m =
      (callWithin links value (m.calleesBefore callee i ++ arguments)).run call m := by
  induction i generalizing value links with
  | zero =>
    obtain rfl : callee = value := Option.some.inj hlink
    rfl
  | succ i ih =>
    obtain ⟨before, hbefore, hhandler⟩ := Machine.link_succ_eq_some.1 hlink
    obtain ⟨hearlier, hplain⟩ := (Machine.indirect_succ hbefore).1 hindirect
    calc (callWithin (links + (i + 1)) callee arguments).run call m
        = (callWithin (links + 1 + i) callee arguments).run call m := by
          rw [Nat.add_right_comm, Nat.add_assoc]
      _ = (callWithin (links + 1) before (m.calleesBefore callee i ++ arguments)).run call m :=
        ih hearlier hbefore (links + 1)
      _ = (callWithin links value (before :: (m.calleesBefore callee i ++ arguments))).run call m :=
        by rw [run_callWithin_of_plain hplain, hhandler]
      _ = (callWithin links value (m.calleesBefore callee (i + 1) ++ arguments)).run call m := by
        rw [Machine.calleesBefore_succ hbefore, List.cons_append]

theorem run_call_of_link (hcount : links + i = 100) (hindirect : m.Indirect callee i)
    (hlink : m.link .call callee i = some value) :
    (Routine.call callee arguments).run call m =
      (callWithin links value (m.calleesBefore callee i ++ arguments)).run call m := by
  rw [Routine.call, maxLinks, ← hcount]
  exact run_callWithin_of_link hindirect hlink links

theorem run_call_of_function {id : FunctionId} (hi : i < 100) (hindirect : m.Indirect callee i)
    (hlink : m.link .call callee i = some (.function id)) :
    (Routine.call callee arguments).run call m =
      m.callOnce call id (m.calleesBefore callee i ++ arguments) := by
  obtain ⟨links, hcount⟩ : ∃ links, links + 1 + i = 100 := ⟨99 - i, by omega⟩
  rw [run_call_of_link hcount hindirect hlink]
  exact run_callFunction id _

theorem run_call_of_none (hi : i < 100) (hindirect : m.Indirect callee i)
    (hlink : m.link .call callee i = some value) (hplain : ∀ id, value ≠ .function id)
    (hnone : m.metamethod value .call = none) :
    (Routine.call callee arguments).run call m =
      some (.error (.ofMessage m.stack ("attempt to call a " ++ value.kind.name ++ " value")),
        m) := by
  obtain ⟨links, hcount⟩ : ∃ links, links + 1 + i = 100 := ⟨99 - i, by omega⟩
  rw [run_call_of_link hcount hindirect hlink, run_callWithin_of_plain hplain, hnone]

theorem run_call_of_indirect (hindirect : m.Indirect callee 100)
    (hlink : m.link .call callee 100 ≠ none) :
    (Routine.call callee arguments).run call m =
      some (.error (.ofMessage m.stack "'__call' chain too long"), m) := by
  obtain ⟨value, hvalue⟩ := Option.ne_none_iff_exists'.1 hlink
  rw [run_call_of_link (Nat.zero_add 100) hindirect hvalue]
  rfl

/-- A call whose chain comes to a function with one of its first 100 values, with room for one more
frame, runs that function once, in a frame of its own, with the values before it, the last one
first, and then the arguments; what comes of that is what comes of the call. If the first 100 values
all have handlers and are no functions, as in every cycle without a function, or if one of them is
no function and has no handler, the call fails and says so. Nothing is run then and nothing
changes. -/
theorem call_passes_callees (call : Invoker H) (m : Machine H) (callee : Value)
    (arguments : List Value) :
    (∀ k ≤ 99, ∀ id, m.Indirect callee k → m.link .call callee k = some (.function id) →
      m.depth < m.maxDepth →
        (Routine.call callee arguments).run call m =
          (call id (m.calleesBefore callee k ++ arguments)
            { m with stack := .native (m.functionName id) :: m.stack }).map fun ending =>
              (ending.1, ending.2.truncate m.depth)) ∧
    (m.Indirect callee 100 → m.link .call callee 100 ≠ none →
      (Routine.call callee arguments).run call m =
        some (.error (.ofMessage m.stack "'__call' chain too long"), m)) ∧
    (∀ i j, i < j → m.link .call callee i = m.link .call callee j → m.link .call callee i ≠ none →
      (∀ count, m.Indirect callee count) →
        (Routine.call callee arguments).run call m =
          some (.error (.ofMessage m.stack "'__call' chain too long"), m)) ∧
    ∀ i < 100, ∀ value, m.Indirect callee (i + 1) → m.link .call callee i = some value →
      m.metamethod value .call = none →
        (Routine.call callee arguments).run call m =
          some (.error (.ofMessage m.stack ("attempt to call a " ++ value.kind.name ++ " value")),
            m) := by
  refine ⟨?_, run_call_of_indirect, ?_, ?_⟩
  · intro k hk id hindirect hlink hroom
    rw [run_call_of_function (Nat.lt_succ_of_le hk) hindirect hlink, Machine.callOnce, if_pos hroom]
  · intro i j hlt heq hlink hindirect
    exact run_call_of_indirect (hindirect 100) (Machine.link_ne_none_of_cycle hlt heq hlink 100)
  · intro i hi value hindirect hlink hnone
    obtain ⟨hearlier, hplain⟩ := (Machine.indirect_succ hlink).1 hindirect
    exact run_call_of_none hi hearlier hlink hplain hnone

/-- A function at the end of a chain of two tables gets both of them, the nearer one first. A table
that is its own handler is a chain that goes round, and a handler that cannot be called is blamed
itself. -/
theorem call_passes_callees_two :
    let host : Host := ⟨Unit, Unit⟩
    let call : Invoker host := fun _ arguments m => some (.ok arguments, m)
    let m : Machine host :=
      { Machine.start 5 () with
        tables := #[
          { metatable := some ⟨1⟩ },
          Table.empty.assignAll [(.string "__call", .table ⟨2⟩)],
          { metatable := some ⟨3⟩ },
          Table.empty.assignAll [(.string "__call", .function ⟨0⟩)],
          { Table.empty.assignAll [(.string "__call", .table ⟨4⟩)] with metatable := some ⟨4⟩ },
          { metatable := some ⟨6⟩ },
          Table.empty.assignAll [(.string "__call", .boolean true)]]
        functions := #[⟨"f", .procedure ()⟩]
        shared := ⟨none, none, none, none⟩ }
    (Routine.call (.table ⟨0⟩) [.nil]).run call m =
        some (.ok [.table ⟨2⟩, .table ⟨0⟩, .nil], m) ∧
      (Routine.call (.table ⟨4⟩) [.nil]).run call m =
        some (.error (.ofMessage m.stack "'__call' chain too long"), m) ∧
      (Routine.call (.table ⟨5⟩) [.nil]).run call m =
        some (.error (.ofMessage m.stack "attempt to call a boolean value"), m) := by
  intro host call m
  have hget : ∀ history key, (Table.empty.assignAll history).get key =
      (Table.lastAssigned history key).getD (Table.empty.get key) := fun history =>
    (Table.valid_empty.assignAll history).2
  have hfirst : (m.table ⟨1⟩).get (.string "__call") = .table ⟨2⟩ := (hget _ _).trans rfl
  have hsecond : (m.table ⟨3⟩).get (.string "__call") = .function ⟨0⟩ := (hget _ _).trans rfl
  have hself : (m.table ⟨4⟩).get (.string "__call") = .table ⟨4⟩ := (hget _ _).trans rfl
  have hbad : (m.table ⟨6⟩).get (.string "__call") = .boolean true := (hget _ _).trans rfl
  have hnearer : m.link .call (.table ⟨0⟩) 1 = some (.table ⟨2⟩) :=
    (Machine.link_succ rfl).trans (Machine.metamethod_of_get rfl hfirst nofun)
  have hfunction : m.link .call (.table ⟨0⟩) 2 = some (.function ⟨0⟩) :=
    (Machine.link_succ hnearer).trans (Machine.metamethod_of_get rfl hsecond nofun)
  have hround : ∀ i, m.link .call (.table ⟨4⟩) i = some (.table ⟨4⟩) := by
    intro i
    induction i with
    | zero => rfl
    | succ i ih => exact (Machine.link_succ ih).trans (Machine.metamethod_of_get rfl hself nofun)
  have hboolean : m.link .call (.table ⟨5⟩) 1 = some (.boolean true) :=
    (Machine.link_succ rfl).trans (Machine.metamethod_of_get rfl hbad nofun)
  have htwo : m.calleesBefore (.table ⟨0⟩) 2 = [.table ⟨2⟩, .table ⟨0⟩] := by
    rw [Machine.calleesBefore_succ hnearer, Machine.calleesBefore_succ rfl]
    rfl
  refine ⟨?_, ?_, ?_⟩
  · have hindirect : m.Indirect (.table ⟨0⟩) 2 := by
      rw [Machine.indirect_succ hnearer, Machine.indirect_succ rfl]
      exact ⟨⟨Machine.indirect_zero, nofun⟩, nofun⟩
    have hrun := (call_passes_callees call m (.table ⟨0⟩) [.nil]).1 2 (by decide) ⟨0⟩ hindirect
      hfunction (by decide : 0 < 5)
    rw [htwo] at hrun
    exact hrun
  · refine (call_passes_callees call m (.table ⟨4⟩) [.nil]).2.2.1 0 1 one_pos
      ((hround 0).trans (hround 1).symm) (by simp [hround]) ?_
    intro count i _ id
    simp [hround]
  · refine (call_passes_callees call m (.table ⟨5⟩) [.nil]).2.2.2 1 (by decide) (.boolean true) ?_
      hboolean rfl
    rw [Machine.indirect_succ hboolean, Machine.indirect_succ rfl]
    exact ⟨⟨Machine.indirect_zero, nofun⟩, nofun⟩

end Routine

end LuaLang
