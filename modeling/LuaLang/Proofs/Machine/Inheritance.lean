import Mathlib
import LuaLang.Proofs.Machine.Links
import LuaLang.Proofs.Table.History

/-!
# Reading is inheritance

Reading `base[key]` gives what the first table on the chain of handlers has under the key, and
changes nothing. A chain that ends before gives nil if it ends at a table and fails otherwise, one
that is still undecided after 100 links fails, and a handler that is a function is called with the
link that it belongs to.

## Main statements

* `Routine.run_index_of_link`: reading from a base is reading from any link before the decision.
* `Routine.index_inherits`: what follows for all chains.
-/

namespace LuaLang.Routine

variable {H : Host} {m : Machine H} {call : Invoker H} {base key value : Value} {i links : Nat}

/-! ## One link -/

theorem run_indexWithin_of_get_ne {id : TableId} (h : (m.table id).get key ≠ .nil) :
    (indexWithin (links + 1) (.table id) key).run call m =
      some (.ok ((m.table id).get key), m) := by
  have hnil : ((m.table id).get key).isNil = false := Table.isNil_eq_false_iff.2 h
  rw [indexWithin, run_bind, run_ownEntry_table, hnil]
  rfl

/-- A link that does not hold the key leaves it to its handler. -/
theorem run_indexWithin_of_misses
    (hmisses : ∀ id, base = .table id → (m.table id).get key = .nil) :
    (indexWithin (links + 1) base key).run call m =
      match m.metamethod base .index with
      | some (.function id) => (callHandler (.function id) base key).run call m
      | some handler => (indexWithin links handler key).run call m
      | none => some (if base.kind = .table then .ok .nil
          else .error (.ofMessage m.stack ("attempt to index a " ++ base.kind.name ++ " value")),
        m) := by
  conv_lhs => unfold indexWithin
  rw [run_bind, run_ownEntry_of_misses hmisses]
  dsimp only
  rw [run_bind, run_metamethod]
  cases m.metamethod base .index with
  | some handler => cases handler <;> rfl
  | none => cases base <;> rfl

theorem run_indexWithin_of_handler {handler : Value}
    (hmisses : ∀ id, base = .table id → (m.table id).get key = .nil)
    (h : m.metamethod base .index = some handler) (hfunction : ∀ id, handler ≠ .function id) :
    (indexWithin (links + 1) base key).run call m = (indexWithin links handler key).run call m := by
  rw [run_indexWithin_of_misses hmisses, h]
  cases handler with
  | function id => exact absurd rfl (hfunction id)
  | _ => rfl

/-- A function is called once with both operands, through the slot for two arguments. -/
theorem run_callHandler_function (id : FunctionId) (left right : Value) :
    (callHandler (.function id) left right).run call m =
      ((m.prepare (.call 2)).callOnce call id [left, right]).map fun ending =>
        (ending.1.map Value.first, ending.2) := by
  have hcall : (callPrepared 2 (.function id) [left, right]).run call m =
      (m.prepare (.call 2)).callOnce call id [left, right] := run_callFunction id [left, right]
  rw [callHandler, run_bind, hcall]
  cases (m.prepare (.call 2)).callOnce call id [left, right] with
  | none => rfl
  | some ending =>
    obtain ⟨outcome, u⟩ := ending
    cases outcome <;> rfl

/-! ## Whole chains -/

/-- Reading from a base is reading from any link before the decision, with fewer links to go. -/
theorem run_index_of_link (hcount : links + i = 100) (hmisses : m.Misses .index base key i)
    (hplain : ∀ j < i, ∀ id, m.link .index base (j + 1) ≠ some (.function id))
    (hlink : m.link .index base i = some value) :
    (index base key).run call m = (indexWithin links value key).run call m := by
  rw [index, maxLinks, ← hcount]
  exact run_eq_of_link (fun links value => indexWithin links value key)
    (fun _ _ _ hmisses => run_indexWithin_of_handler hmisses) hmisses hplain hlink links

/-- A function is called with the link that it is the handler of. -/
theorem run_index_of_function {id : FunctionId} (hi : i < 100)
    (hlink : m.link .index base i = some value) (hmisses : m.Misses .index base key (i + 1))
    (hplain : ∀ j < i, ∀ id, m.link .index base (j + 1) ≠ some (.function id))
    (hfunction : m.link .index base (i + 1) = some (.function id)) :
    (index base key).run call m =
      ((m.prepare (.call 2)).callOnce call id [value, key]).map fun ending =>
        (ending.1.map Value.first, ending.2) := by
  obtain ⟨hearlier, hlast⟩ := (Machine.misses_succ hlink).1 hmisses
  obtain ⟨links, hcount⟩ : ∃ links, links + 1 + i = 100 := ⟨99 - i, by omega⟩
  rw [Machine.link_succ hlink] at hfunction
  rw [run_index_of_link hcount hearlier hplain hlink, run_indexWithin_of_misses hlast, hfunction]
  exact run_callHandler_function id value key

section

variable (h : m.MeetsNoFunction .index base key)

include h

theorem run_index_of_get_ne {id : TableId} (hi : i < 100)
    (hlink : m.link .index base i = some (.table id)) (hmisses : m.Misses .index base key i)
    (hget : (m.table id).get key ≠ .nil) :
    (index base key).run call m = some (.ok ((m.table id).get key), m) := by
  obtain ⟨links, hcount⟩ : ∃ links, links + 1 + i = 100 := ⟨99 - i, by omega⟩
  rw [run_index_of_link hcount hmisses (h.link_ne hi.le hmisses) hlink,
    run_indexWithin_of_get_ne hget]

theorem run_index_of_none (hi : i < 100) (hlink : m.link .index base i = some value)
    (hmisses : m.Misses .index base key (i + 1)) (hnone : m.link .index base (i + 1) = none) :
    (index base key).run call m = some (if value.kind = .table then .ok .nil
        else .error (.ofMessage m.stack ("attempt to index a " ++ value.kind.name ++ " value")),
      m) := by
  obtain ⟨hearlier, hlast⟩ := (Machine.misses_succ hlink).1 hmisses
  obtain ⟨links, hcount⟩ : ∃ links, links + 1 + i = 100 := ⟨99 - i, by omega⟩
  rw [Machine.link_succ hlink] at hnone
  rw [run_index_of_link hcount hearlier (h.link_ne hi.le hearlier) hlink,
    run_indexWithin_of_misses hlast, hnone]

theorem run_index_of_misses (hmisses : m.Misses .index base key 100)
    (hlink : m.link .index base 100 ≠ none) :
    (index base key).run call m = some (.error (.ofMessage m.stack "loop in gettable"), m) := by
  obtain ⟨value, hvalue⟩ := Option.ne_none_iff_exists'.1 hlink
  rw [run_index_of_link (Nat.zero_add 100) hmisses (h.link_ne le_rfl hmisses) hvalue]
  rfl

end

theorem ofMessage_inj {frames : List Frame} {message other : String}
    (h : RuntimeError.ofMessage frames message = .ofMessage frames other) : message = other := by
  have hmessage := congrArg RuntimeError.message h
  simp only [RuntimeError.ofMessage, RuntimeError.located] at hmessage
  split at hmessage
  · exact (String.append_right_inj _).1 hmessage
  · exact hmessage

theorem ofMessage_unsupported_ne_readLoop (frames : List Frame) (kind : Kind) :
    RuntimeError.ofMessage frames ("attempt to index a " ++ kind.name ++ " value") ≠
      .ofMessage frames "loop in gettable" := by
  intro h
  have hmessage := ofMessage_inj h
  cases kind <;> revert hmessage <;> decide

/-- Reading `base[key]` when no handler that is met is a function changes nothing. It gives the
value of the first table on the chain, among 100 links, that holds the key, and nil if the chain
ends before at a table. It fails if the chain ends at something else, naming what that is, or if the
first 100 links neither hold the key nor end the chain, as in every cycle without the key. If the
first handler that is a function is met, that function is called once, with the link that it is the
handler of and the key, and its first result is the result. -/
theorem index_inherits (call : Invoker H) (m : Machine H) (base key : Value) :
    (m.MeetsNoFunction .index base key →
      (∃ outcome, (index base key).run call m = some (outcome, m)) ∧
      (∀ i < 100, ∀ id, m.link .index base i = some (.table id) → m.Misses .index base key i →
        (m.table id).get key ≠ .nil →
          (index base key).run call m = some (.ok ((m.table id).get key), m)) ∧
      (∀ i < 100, ∀ id, m.link .index base i = some (.table id) →
        m.Misses .index base key (i + 1) → m.link .index base (i + 1) = none →
          (index base key).run call m = some (.ok .nil, m)) ∧
      (∀ i < 100, ∀ value, m.link .index base i = some value → value.kind ≠ .table →
        m.Misses .index base key i → m.link .index base (i + 1) = none →
          (index base key).run call m = some (.error (.ofMessage m.stack
            ("attempt to index a " ++ value.kind.name ++ " value")), m)) ∧
      ((index base key).run call m =
          some (.error (.ofMessage m.stack "loop in gettable"), m) ↔
        m.Misses .index base key 100 ∧ m.link .index base 100 ≠ none) ∧
      (∀ i j, i < j → m.link .index base i = m.link .index base j →
        m.link .index base i ≠ none → (∀ count, m.Misses .index base key count) →
          (index base key).run call m =
            some (.error (.ofMessage m.stack "loop in gettable"), m))) ∧
    ∀ i < 100, ∀ value id, m.link .index base i = some value →
      m.Misses .index base key (i + 1) →
      (∀ j < i, ∀ id, m.link .index base (j + 1) ≠ some (.function id)) →
      m.link .index base (i + 1) = some (.function id) →
        (index base key).run call m =
          ((m.prepare (.call 2)).callOnce call id [value, key]).map fun ending =>
            (ending.1.map Value.first, ending.2) := by
  refine ⟨fun h => ⟨?_, ?_, ?_, ?_, ?_, ?_⟩, ?_⟩
  · obtain ⟨hmisses, hlink⟩ | ⟨i, hi, value, hvalue, hmisses, ⟨id, rfl, hget⟩ | ⟨hlast, hnone⟩⟩ :=
      m.link_cases .index base key 100
    · exact ⟨_, run_index_of_misses h hmisses hlink⟩
    · exact ⟨_, run_index_of_get_ne h hi hvalue hmisses hget⟩
    · exact ⟨_, run_index_of_none h hi hvalue hlast hnone⟩
  · intro i hi id hlink hmisses hget
    exact run_index_of_get_ne h hi hlink hmisses hget
  · intro i hi id hlink hmisses hnone
    exact run_index_of_none h hi hlink hmisses hnone
  · intro i hi value hlink hkind hmisses hnone
    have hlast : m.Misses .index base key (i + 1) := by
      refine (Machine.misses_succ hlink).2 ⟨hmisses, ?_⟩
      rintro id rfl
      exact absurd rfl hkind
    rw [run_index_of_none h hi hlink hlast hnone, if_neg hkind]
  · refine ⟨fun hloop => ?_, fun ⟨hmisses, hlink⟩ => run_index_of_misses h hmisses hlink⟩
    obtain hundecided | ⟨i, hi, value, hvalue, hmisses, ⟨id, rfl, hget⟩ | ⟨hlast, hnone⟩⟩ :=
      m.link_cases .index base key 100
    · exact hundecided
    · rw [run_index_of_get_ne h hi hvalue hmisses hget] at hloop
      cases hloop
    · rw [run_index_of_none h hi hvalue hlast hnone] at hloop
      split at hloop
      · cases hloop
      · have herror := congrArg (Option.map Prod.fst) hloop
        simp [ofMessage_unsupported_ne_readLoop] at herror
  · intro i j hlt heq hlink hmisses
    exact run_index_of_misses h (hmisses 100) (Machine.link_ne_none_of_cycle hlt heq hlink 100)
  · intro i hi value id hlink hmisses hplain hfunction
    exact run_index_of_function hi hlink hmisses hplain hfunction

/-- An object of a class that is its own metatable and its own handler finds what the class holds,
and without the class holding it the chain goes round. An object that inherits from one with a
function for a handler has the function called with that one. -/
theorem index_inherits_class :
    let host : Host := ⟨Unit, Unit⟩
    let call : Invoker host := fun _ arguments m => some (.ok arguments, m)
    let m : Machine host :=
      { Machine.start 5 () with
        tables := #[
          { Table.empty.assignAll
              [(.string "__index", .table ⟨0⟩), (.string "k", .boolean true)] with
            metatable := some ⟨0⟩ },
          { metatable := some ⟨0⟩ },
          Table.empty.assignAll [(.string "__index", .function ⟨0⟩)],
          { metatable := some ⟨2⟩ },
          Table.empty.assignAll [(.string "__index", .table ⟨3⟩)],
          { metatable := some ⟨4⟩ }]
        functions := #[⟨"f", .procedure ()⟩] }
    (index (.table ⟨1⟩) (.string "k")).run call m = some (.ok (.boolean true), m) ∧
      (index (.table ⟨1⟩) (.string "x")).run call m =
        some (.error (.ofMessage m.stack "loop in gettable"), m) ∧
      (index (.table ⟨5⟩) (.string "x")).run call m =
        some (.ok (.table ⟨3⟩), m.prepare (.call 2)) := by
  intro host call m
  have hget : ∀ history key, (Table.empty.assignAll history).get key =
      (Table.lastAssigned history key).getD (Table.empty.get key) := fun history =>
    (Table.valid_empty.assignAll history).2
  have hclass : (m.table ⟨0⟩).get (.string "__index") = .table ⟨0⟩ := (hget _ _).trans rfl
  have hk : (m.table ⟨0⟩).get (.string "k") = .boolean true := (hget _ _).trans rfl
  have hx : (m.table ⟨0⟩).get (.string "x") = .nil := (hget _ _).trans (Table.get_empty _)
  have hbare : ∀ key, (m.table ⟨1⟩).get key = .nil := Table.get_empty
  have hround : ∀ i, m.link .index (.table ⟨1⟩) (i + 1) = some (.table ⟨0⟩) := by
    intro i
    induction i with
    | zero => exact (Machine.link_succ rfl).trans (Machine.metamethod_of_get rfl hclass nofun)
    | succ i ih => exact (Machine.link_succ ih).trans (Machine.metamethod_of_get rfl hclass nofun)
  have hplain : ∀ key, m.MeetsNoFunction .index (.table ⟨1⟩) key := by
    intro key i _ _ id
    rw [hround]
    simp
  have hmisses : ∀ count, m.Misses .index (.table ⟨1⟩) (.string "x") count := by
    rintro count (_ | i) _ id hid
    · cases hid
      exact hbare _
    · rw [hround] at hid
      cases hid
      exact hx
  have hparent : (m.table ⟨4⟩).get (.string "__index") = .table ⟨3⟩ := (hget _ _).trans rfl
  have hlast : (m.table ⟨2⟩).get (.string "__index") = .function ⟨0⟩ := (hget _ _).trans rfl
  have hheir : m.link .index (.table ⟨5⟩) 1 = some (.table ⟨3⟩) :=
    (Machine.link_succ rfl).trans (Machine.metamethod_of_get rfl hparent nofun)
  have hfunction : m.link .index (.table ⟨5⟩) 2 = some (.function ⟨0⟩) :=
    (Machine.link_succ hheir).trans (Machine.metamethod_of_get rfl hlast nofun)
  have hheirs : m.Misses .index (.table ⟨5⟩) (.string "x") 2 := by
    rintro (_ | _ | i) hi id hid
    · cases hid
      exact Table.get_empty _
    · rw [hheir] at hid
      cases hid
      exact Table.get_empty _
    · omega
  obtain ⟨-, hholds, -⟩ := (index_inherits call m (.table ⟨1⟩) (.string "k")).1 (hplain _)
  obtain ⟨-, -, -, -, -, hcycle⟩ := (index_inherits call m (.table ⟨1⟩) (.string "x")).1 (hplain _)
  refine ⟨?_, ?_, ?_⟩
  · rw [← hk]
    refine hholds 1 (by decide) ⟨0⟩ (hround 0) ?_ (by simp [hk])
    rintro (_ | i) hi id hid
    · cases hid
      exact hbare _
    · omega
  · exact hcycle 1 2 (by decide) ((hround 0).trans (hround 1).symm) (by simp [hround]) hmisses
  · refine (index_inherits call m (.table ⟨5⟩) (.string "x")).2 1 (by decide) (.table ⟨3⟩) ⟨0⟩
      hheir hheirs ?_ hfunction
    intro j hj id
    obtain rfl : j = 0 := by omega
    simp [hheir]

end LuaLang.Routine
