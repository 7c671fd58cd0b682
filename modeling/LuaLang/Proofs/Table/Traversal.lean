import Mathlib
import LuaLang.Proofs.Table.History

/-!
# Traversals survive updates

A traversal asks for the entry after a key, and goes on from the key that it is given. In between,
values may be taken away, and values may be put under keys that have an entry. Neither moves an
entry, so a traversal passes every entry once and in order: the entries that it has passed are those
in the places before some point, and it has missed only those that had no value when it came by.

## Main definitions

* `Table.Reachable`: the tables that can be made.
* `Table.Walk`: where a traversal stands.
* `Table.Walk.Advances`, `Table.Walk.Updates`: a step of a traversal, and what may happen between
  steps.
* `Table.Walk.Passed`: what holds of a traversal all along.

## Main statements

* `Table.Walk.Passed.advances`, `Table.Walk.Passed.updates`: what one step keeps.
* `Table.traversal_survives_updates`: what follows for whole traversals.
-/

namespace LuaLang.Table

variable {t u : Table} {key value : Value}

/-- The tables that can be made: from a list, by assignments, and by changing the metatable. -/
inductive Reachable : Table → Prop where
  | ofList {values : List Value} (h : values.length < 2 ^ 32) : Reachable (ofList values)
  | assign {t : Table} (h : Reachable t) (key value : Value) : Reachable (t.assign key value)
  | setMetatable {t : Table} (h : Reachable t) (metatable : Option TableId) :
    Reachable { t with metatable }

theorem Reachable.valid (h : t.Reachable) : t.Valid := by
  induction h with
  | ofList h => exact (valid_ofList h).1
  | assign _ key value ih => exact (ih.assign key value).1
  | setMetatable _ metatable ih => exact ih.withMetatable metatable

/-! ## Tables with the same keys in the same places -/

/-- The second table has the keys of the first one, each in the same place. -/
structure SameKeys (t u : Table) : Prop where
  keys : u.entries.toList.map Prod.fst = t.entries.toList.map Prod.fst
  places : u.places = t.places

theorem SameKeys.refl (t : Table) : SameKeys t t := ⟨rfl, rfl⟩

theorem SameKeys.trans {v : Table} (h : SameKeys t u) (g : SameKeys u v) : SameKeys t v :=
  ⟨g.keys.trans h.keys, g.places.trans h.places⟩

theorem sameKeys_replace (t : Table) (place : Nat) (value : Value) :
    SameKeys t (t.replace place value) := by
  refine ⟨?_, rfl⟩
  have hentries : (t.replace place value).entries.toList =
      t.entries.toList.modify place fun entry => (entry.1, value) := by
    simp [replace]
  apply List.ext_getElem?
  intro i
  rw [hentries, List.getElem?_map, List.getElem?_map, List.getElem?_modify]
  split <;> cases t.entries.toList[i]? <;> rfl

/-- An assignment that takes a value away, or that is to a key with an entry, adds no key. -/
theorem sameKeys_assign (h : value = .nil ∨ (t.place? key).isSome = true) :
    SameKeys t (t.assign key value) := by
  rw [assign, set]
  cases keyFault? key with
  | some e => exact .refl t
  | none =>
    dsimp only
    rw [put]
    cases hplace : t.place? key with
    | some place => exact sameKeys_replace t place value
    | none =>
      rw [hplace] at h
      obtain rfl : value = .nil := by simpa using h
      exact .refl t

/-! ## How far a traversal is -/

/-- How many entries a traversal has passed that has come to a key. -/
def passed? (t : Table) (key : Value) : Option Nat :=
  if key.isNil then some 0 else (t.place? key).map (· + 1)

theorem next_of_passed? {n : Nat} (h : t.passed? key = some n) :
    t.next key = .ok (t.nextFrom n) := by
  unfold passed? at h
  unfold next
  split at h
  · next hnil =>
    cases h
    rw [if_pos hnil]
  · next hkey =>
    obtain ⟨place, hplace, rfl⟩ := Option.map_eq_some_iff.1 h
    rw [if_neg hkey, hplace]

theorem SameKeys.passed?_eq (h : SameKeys t u) (key : Value) : u.passed? key = t.passed? key := by
  rw [passed?, passed?, place?, place?, h.places]

/-- A step passes some entries without a value, and the one that it gives. -/
theorem nextFrom_eq_some {n : Nat} {entry : Value × Value} (h : t.nextFrom n = some entry) :
    ∃ skipped : List (Value × Value),
      t.entries.toList.take (n + skipped.length + 1) =
        t.entries.toList.take n ++ skipped ++ [entry] ∧
      t.entries.toList[n + skipped.length]? = some entry ∧
      (∀ other ∈ skipped, other.2 = .nil) ∧ entry.2 ≠ .nil := by
  rw [nextFrom, List.find?_eq_some_iff_append] at h
  obtain ⟨hvalue, skipped, rest, hsplit, hskipped⟩ := h
  refine ⟨skipped, ?_, ?_, fun other hother => ?_, ?_⟩
  · have hpassed : (t.entries.toList.drop n).take (skipped.length + 1) = skipped ++ [entry] := by
      rw [hsplit, List.take_length_add_append]
      rfl
    rw [Nat.add_assoc, List.take_add, hpassed, List.append_assoc]
  · have hfirst : (t.entries.toList.drop n)[skipped.length]? = some entry := by
      rw [hsplit, List.getElem?_append_right (Nat.le_refl _), Nat.sub_self]
      rfl
    rwa [List.getElem?_drop] at hfirst
  · simpa [isNil_iff] using hskipped other hother
  · simpa [isNil_eq_false_iff] using hvalue

theorem Valid.passed?_of_getElem? (h : t.Valid) {n : Nat} {entry : Value × Value}
    (hentry : t.entries.toList[n]? = some entry) : t.passed? entry.1 = some (n + 1) := by
  have hkey := (h.keys entry (List.mem_of_getElem? hentry)).1
  rw [passed?, isNil_eq_false_iff.2 hkey, (place?_eq_some h).2 ⟨entry, hentry, rfl⟩]
  rfl

/-! ## Traversals -/

/-- What a step of a traversal has given, and the table at that moment. -/
structure Visit where
  table : Table
  key : Value
  value : Value

/-- Where a traversal stands. -/
structure Walk where
  table : Table
  /-- The key that the next step goes on from, nil at the start. -/
  key : Value
  /-- What the steps have given, the latest last. -/
  visits : List Visit

namespace Walk

def start (t : Table) : Walk := ⟨t, .nil, []⟩

/-- The traversal asks for the entry after its key, and there is one. -/
def Advances (w w' : Walk) : Prop :=
  ∃ key value, w.table.next w.key = .ok (some (key, value)) ∧
    w' = ⟨w.table, key, w.visits ++ [⟨w.table, key, value⟩]⟩

/-- A value is taken away, or a value is put under a key that has an entry. -/
def Updates (w w' : Walk) : Prop :=
  ∃ key value, (value = .nil ∨ (w.table.place? key).isSome = true) ∧
    w' = { w with table := w.table.assign key value }

/-- What can happen during a traversal. -/
def Step (w w' : Walk) : Prop := Advances w w' ∨ Updates w w'

/-- What holds of a traversal of `t` that has passed `n` entries. An entry that was passed was given
or had no value at the time, and as long as nothing changes it is the pairs that are given. -/
structure Passed (t : Table) (n : Nat) (w : Walk) : Prop where
  valid : w.table.Valid
  same : SameKeys t w.table
  passed : w.table.passed? w.key = some n
  visited : (w.visits.map Visit.key).Sublist ((t.entries.toList.map Prod.fst).take n)
  held : ∀ visit ∈ w.visits, visit.table.get visit.key = visit.value ∧ visit.value ≠ .nil
  missed : ∀ key ∈ (t.entries.toList.map Prod.fst).take n,
    key ∈ w.visits.map Visit.key ∨ ∃ visit ∈ w.visits, visit.table.get key = .nil
  undisturbed : (∀ visit ∈ w.visits, visit.table = t) →
    w.visits.map (fun visit => (visit.key, visit.value)) =
      (t.entries.toList.take n).filter fun entry => !entry.2.isNil

variable {w w' : Walk} {n : Nat}

theorem passed_start (h : t.Valid) : Passed t 0 (start t) where
  valid := h
  same := .refl t
  passed := rfl
  visited := List.Sublist.refl []
  held := by simp [start]
  missed := by simp
  undisturbed _ := rfl

theorem Passed.updates (h : Passed t n w) (step : Updates w w') : Passed t n w' := by
  obtain ⟨key, value, hupdate, rfl⟩ := step
  have hkeys := sameKeys_assign hupdate
  exact { h with
    valid := (h.valid.assign key value).1
    same := h.same.trans hkeys
    passed := (hkeys.passed?_eq w.key).trans h.passed }

theorem Passed.advances (h : Passed t n w) (step : Advances w w') : ∃ n', Passed t n' w' := by
  obtain ⟨key, value, hnext, rfl⟩ := step
  rw [next_of_passed? h.passed, Except.ok.injEq] at hnext
  obtain ⟨skipped, htake, hentry, hskipped, hvalue⟩ := nextFrom_eq_some hnext
  have hmem := List.mem_of_getElem? hentry
  have hkeys : (t.entries.toList.map Prod.fst).take (n + skipped.length + 1) =
      (t.entries.toList.map Prod.fst).take n ++ skipped.map Prod.fst ++ [key] := by
    rw [← h.same.keys, ← List.map_take, htake]
    simp
  refine ⟨n + skipped.length + 1, h.valid, h.same, h.valid.passed?_of_getElem? hentry, ?_, ?_, ?_,
    ?_⟩
  · rw [hkeys, List.append_assoc, List.map_append]
    exact h.visited.append (List.sublist_append_right _ _)
  · rw [List.forall_mem_append]
    refine ⟨h.held, ?_⟩
    rw [List.forall_mem_singleton]
    exact ⟨h.valid.get_of_mem hmem rfl, hvalue⟩
  · intro other hother
    rw [hkeys, List.mem_append, List.mem_append, List.mem_singleton] at hother
    obtain (hother | hother) | rfl := hother
    · obtain hvisited | ⟨visit, hvisit, hnil⟩ := h.missed other hother
      · exact .inl (by simp [hvisited])
      · exact .inr ⟨visit, by simp [hvisit], hnil⟩
    · -- The entries that this step has skipped have no value in the table as it is now.
      obtain ⟨entry, hentry, rfl⟩ := List.mem_map.1 hother
      have hnow : entry ∈ w.table.entries.toList :=
        List.mem_of_mem_take (by rw [htake]; simp [hentry])
      exact .inr ⟨⟨w.table, key, value⟩, by simp,
        (h.valid.get_of_mem hnow rfl).trans (hskipped entry hentry)⟩
    · exact .inl (by simp)
  · intro hsame
    rw [List.forall_mem_append, List.forall_mem_singleton] at hsame
    obtain ⟨hbefore, hnow⟩ := hsame
    have hnone : skipped.filter (fun entry => !entry.2.isNil) = [] := by
      rw [List.filter_eq_nil_iff]
      intro entry hentry
      simp [isNil_iff.2 (hskipped entry hentry)]
    have hsome : (!value.isNil) = true := by rw [isNil_eq_false_iff.2 hvalue]; rfl
    rw [← hnow, htake, List.filter_append, List.filter_append, hnone, List.map_append,
      h.undisturbed hbefore, ← hnow]
    simp [hsome]

theorem Passed.step (h : Passed t n w) (step : Step w w') : ∃ n', Passed t n' w' := by
  obtain step | step := step
  · exact h.advances step
  · exact ⟨n, h.updates step⟩

theorem exists_passed (h : t.Valid) (run : Relation.ReflTransGen Step (start t) w) :
    ∃ n, Passed t n w := by
  induction run with
  | refl => exact ⟨0, passed_start h⟩
  | tail _ step ih =>
    obtain ⟨n, hn⟩ := ih
    exact hn.step step

/-! ## What follows for whole traversals -/

theorem Passed.length_le (h : Passed t n w) : w.visits.length ≤ t.entries.size := by
  have hlength := (h.visited.trans (List.take_sublist _ _)).length_le
  simpa using hlength

/-- A traversal that is left alone comes to its end. -/
theorem Passed.exists_end (h : Passed t n w) :
    ∃ w', Relation.ReflTransGen Advances w w' ∧ w'.table = w.table ∧
      w'.table.next w'.key = .ok none := by
  induction hleft : t.entries.size - w.visits.length using Nat.strong_induction_on
    generalizing n w with
  | _ left ih =>
    cases hnext : w.table.nextFrom n with
    | none => exact ⟨w, .refl, rfl, (next_of_passed? h.passed).trans (by rw [hnext])⟩
    | some entry =>
      have hstep : Advances w ⟨w.table, entry.1, w.visits ++ [⟨w.table, entry.1, entry.2⟩]⟩ :=
        ⟨entry.1, entry.2, (next_of_passed? h.passed).trans (by rw [hnext]), rfl⟩
      obtain ⟨n', hpassed⟩ := h.advances hstep
      have hlength := hpassed.length_le
      rw [List.length_append, List.length_singleton] at hlength
      obtain ⟨w', hrun, htable, hend⟩ := ih _ (by
        rw [← hleft, List.length_append, List.length_singleton]
        omega) hpassed rfl
      exact ⟨w', .head hstep hrun, htable, hend⟩

theorem Passed.pairwise (h : Passed t n w) :
    w.visits.Pairwise fun a b => a.key.rawEqual b.key = false := by
  have hkeys : (t.entries.toList.map Prod.fst).Pairwise
      fun a b => a.rawEqual b = false := by
    rw [← h.same.keys, List.pairwise_map]
    exact h.valid.pairwise_rawEqual
  exact List.pairwise_map.1 (hkeys.sublist (h.visited.trans (List.take_sublist _ _)))

/-- A traversal has come to its end when nothing that has a value is left. -/
theorem Passed.value_eq_nil_of_end (h : Passed t n w) (hend : w.table.next w.key = .ok none) :
    ∀ entry ∈ w.table.entries.toList.drop n, entry.2 = .nil := by
  rw [next_of_passed? h.passed, Except.ok.injEq, nextFrom, List.find?_eq_none] at hend
  intro entry hentry
  simpa [isNil_iff] using hend entry hentry

/-- What had a value whenever the traversal made a step has been given by one. -/
theorem Passed.exists_visit (h : Passed t n w) (hend : w.table.next w.key = .ok none)
    (hnow : w.table.get key ≠ .nil) (hall : ∀ visit ∈ w.visits, visit.table.get key ≠ .nil) :
    ∃ visit ∈ w.visits, visit.key.rawEqual key = true := by
  obtain ⟨entry, hentry, hform, hvalue⟩ := (h.valid.get_eq_iff hnow).1 rfl
  have hmem := (mem_pairs.1 hentry).1
  rw [← List.take_append_drop n w.table.entries.toList, List.mem_append] at hmem
  obtain hmem | hmem := hmem
  · have hpassed : entry.1 ∈ (t.entries.toList.map Prod.fst).take n := by
      rw [← h.same.keys, ← List.map_take]
      exact List.mem_map_of_mem hmem
    obtain hvisited | ⟨visit, hvisit, hnil⟩ := h.missed entry.1 hpassed
    · obtain ⟨visit, hvisit, hkey⟩ := List.mem_map.1 hvisited
      refine ⟨visit, hvisit, (Value.rawEqual_iff _ _).2 ⟨hkey ▸ hform, ?_⟩⟩
      exact hkey ▸ (h.valid.keys entry (List.mem_of_mem_take hmem)).2
    · refine absurd ?_ (hall visit hvisit)
      rwa [get, place?, ← hform]
  · exact absurd (h.value_eq_nil_of_end hend entry hmem) (hvalue ▸ hnow)

/-- A traversal that is left alone has seen one table only. -/
theorem table_eq_of_advances (run : Relation.ReflTransGen Advances (start t) w) :
    w.table = t ∧ ∀ visit ∈ w.visits, visit.table = t := by
  induction run with
  | refl => exact ⟨rfl, by simp [start]⟩
  | tail _ step ih =>
    obtain ⟨key, value, -, rfl⟩ := step
    obtain ⟨htable, hvisits⟩ := ih
    refine ⟨htable, ?_⟩
    rw [List.forall_mem_append, List.forall_mem_singleton]
    exact ⟨hvisits, htable⟩

/-- A traversal that is left alone has given the first of the pairs, and at its end all. -/
theorem Passed.pairs (h : Passed t n w) (run : Relation.ReflTransGen Advances (start t) w) :
    w.visits.map (fun visit => (visit.key, visit.value)) <+: t.pairs ∧
      (w.table.next w.key = .ok none →
        w.visits.map (fun visit => (visit.key, visit.value)) = t.pairs) := by
  obtain ⟨htable, hvisits⟩ := table_eq_of_advances run
  rw [h.undisturbed hvisits, Table.pairs]
  refine ⟨(List.take_prefix n _).filter _, fun hend => ?_⟩
  have hrest : (t.entries.toList.drop n).filter (fun entry => !entry.2.isNil) = [] := by
    rw [List.filter_eq_nil_iff]
    intro entry hentry
    simp [isNil_iff.2 (h.value_eq_nil_of_end hend entry (htable ▸ hentry))]
  rw [← List.append_nil (List.filter _ (List.take n _)), ← hrest, ← List.filter_append,
    List.take_append_drop]

/-- A traversal that has made as many steps as there are entries is at its end. -/
theorem Passed.next_eq_none (h : Passed t n w) (hlength : t.entries.size ≤ w.visits.length) :
    w.table.next w.key = .ok none := by
  have htake := h.visited.length_le
  rw [List.length_map, List.length_take, List.length_map, Array.length_toList] at htake
  have hkeys := congrArg List.length h.same.keys
  rw [List.length_map, List.length_map, Array.length_toList, Array.length_toList] at hkeys
  rw [next_of_passed? h.passed, nextFrom, List.drop_eq_nil_of_le]
  · rfl
  · rw [Array.length_toList]
    omega

end Walk

open Walk in
/-- Any number of updates may come before, between and after the steps of a traversal. No step
fails. There are no more steps than entries, after as many the traversal is at its end, and left
alone it gets there. No key is given twice, each is given with the value that it has at the moment,
and at the end each key has been given that had a value at all steps. With no updates the traversal
gives the pairs of the table in their order. -/
theorem traversal_survives_updates {t : Table} (ht : t.Reachable) :
    (∀ w, Relation.ReflTransGen Step (start t) w →
      (∃ found, w.table.next w.key = .ok found) ∧
      w.visits.length ≤ t.entries.size ∧
      (w.visits.length = t.entries.size → w.table.next w.key = .ok none) ∧
      (∃ w', Relation.ReflTransGen Advances w w' ∧ w'.table.next w'.key = .ok none) ∧
      w.visits.Pairwise (fun a b => a.key.rawEqual b.key = false) ∧
      (∀ visit ∈ w.visits, visit.table.get visit.key = visit.value ∧ visit.value ≠ .nil) ∧
      (w.table.next w.key = .ok none → ∀ key, w.table.get key ≠ .nil →
        (∀ visit ∈ w.visits, visit.table.get key ≠ .nil) →
        ∃ visit ∈ w.visits, visit.key.rawEqual key = true)) ∧
    ∀ w, Relation.ReflTransGen Advances (start t) w →
      w.visits.map (fun visit => (visit.key, visit.value)) <+: t.pairs ∧
      (w.table.next w.key = .ok none →
        w.visits.map (fun visit => (visit.key, visit.value)) = t.pairs) := by
  refine ⟨fun w run => ?_, fun w run => ?_⟩
  · obtain ⟨n, h⟩ := exists_passed ht.valid run
    refine ⟨⟨_, next_of_passed? h.passed⟩, h.length_le, fun hlength => h.next_eq_none hlength.ge,
      ?_, h.pairwise, h.held, fun hend key hnow hall => h.exists_visit hend hnow hall⟩
    obtain ⟨w', hrun, -, hend⟩ := h.exists_end
    exact ⟨w', hrun, hend⟩
  · have hsteps : Advances ≤ Step := fun _ _ => .inl
    obtain ⟨n, h⟩ := exists_passed ht.valid (Relation.ReflTransGen.mono hsteps _ _ run)
    exact h.pairs run

open Walk in
/-- The first key is cleared after it was given, and the traversal goes on from it. -/
theorem traversal_survives_updates_cleared :
    ∃ found, ((ofList [.boolean true, .boolean false]).assign (.ofNat 1) .nil).next (.ofNat 1) =
      .ok found := by
  have hreachable : (ofList [.boolean true, .boolean false]).Reachable := .ofList (by decide)
  obtain ⟨hsurvives, -⟩ := traversal_survives_updates hreachable
  have hvisit : Advances (start (ofList [.boolean true, .boolean false])) _ :=
    ⟨.ofNat 1, .boolean true, rfl, rfl⟩
  exact (hsurvives _ (.tail (.single (.inl hvisit)) (.inr ⟨.ofNat 1, .nil, .inl rfl, rfl⟩))).1

end LuaLang.Table
