import Mathlib
import LuaLang.Operation.Index
import LuaLang.Proofs.Machine.Dispatch
import LuaLang.Proofs.Table.Invariant

/-!
# Chains of handlers

Reading and writing go along a chain: a base, its handler, the handler of that, and so on, until a
table holds the key, a handler is missing, or a handler is a function. Which links are looked at and
what is found there can be said of the machine alone, since looking changes nothing. What an
operation does after some links is what it does from the next link on, with that many links less.

## Main definitions

* `Machine.link`: the values on a chain.
* `Machine.Misses`: the tables up to a link do not hold a key.
* `Machine.MeetsNoFunction`: no handler on the way is a function.

## Main statements

* `Machine.link_cases`: a chain goes on, or there is a first link at which it stops.
* `Machine.link_ne_none_of_cycle`: a chain that comes back to a link never ends.
* `Routine.run_eq_of_link`: going along a chain.
-/

namespace LuaLang

variable {H : Host} {m : Machine H} {method : Metamethod} {base key value : Value} {i : Nat}

namespace Machine

/-! ## Links -/

/-- The values on a chain of handlers: the base, its handler, the handler of that, and so on. The
chain ends at a value without a handler. -/
def link (m : Machine H) (method : Metamethod) (base : Value) : Nat → Option Value
  | 0 => some base
  | i + 1 => (m.link method base i).bind fun value => m.metamethod value method

theorem metamethod_of_get {id metatable : TableId} {handler : Value}
    (hmetatable : (m.table id).metatable = some metatable)
    (hget : (m.table metatable).get (.string method.name) = handler) (hne : handler ≠ .nil) :
    m.metamethod (.table id) method = some handler := by
  rw [metamethod, metatableOf, hmetatable, Option.bind_some, hget]
  exact if_neg fun h => hne (Table.isNil_iff.1 h)

theorem link_succ (h : m.link method base i = some value) :
    m.link method base (i + 1) = m.metamethod value method := by
  rw [link, h, Option.bind_some]

theorem link_succ_eq_some {next : Value} :
    m.link method base (i + 1) = some next ↔
      ∃ value, m.link method base i = some value ∧ m.metamethod value method = some next :=
  Option.bind_eq_some_iff

theorem link_ne_none_of_le {j : Nat} (h : m.link method base j ≠ none) (hle : i ≤ j) :
    m.link method base i ≠ none := by
  induction hle with
  | refl => exact h
  | step _ ih =>
    refine ih fun hnone => h ?_
    rw [link, hnone, Option.bind_none]

/-- From two equal links on, a chain takes the same course. -/
theorem link_add_eq {j : Nat} (h : m.link method base i = m.link method base j) (n : Nat) :
    m.link method base (i + n) = m.link method base (j + n) := by
  induction n with
  | zero => exact h
  | succ n ih => rw [← Nat.add_assoc, ← Nat.add_assoc, link, link, ih]

/-- A chain that comes back to a link never ends. -/
theorem link_ne_none_of_cycle {j : Nat} (hlt : i < j)
    (heq : m.link method base i = m.link method base j) (h : m.link method base i ≠ none)
    (n : Nat) : m.link method base n ≠ none := by
  have hround : ∀ rounds, m.link method base (i + rounds * (j - i)) ≠ none := by
    intro rounds
    induction rounds with
    | zero => simpa using h
    | succ rounds ih =>
      have hshift := link_add_eq heq (rounds * (j - i))
      rw [hshift] at ih
      rwa [Nat.succ_mul, Nat.add_comm _ (j - i), ← Nat.add_assoc, Nat.add_sub_cancel' hlt.le]
  refine link_ne_none_of_le (hround n) ?_
  calc n ≤ n * (j - i) := Nat.le_mul_of_pos_right n (by omega)
    _ ≤ i + n * (j - i) := Nat.le_add_left _ _

/-! ## What is found on the way -/

/-- None of the tables among the first `count` links holds the key. -/
def Misses (m : Machine H) (method : Metamethod) (base key : Value) (count : Nat) : Prop :=
  ∀ i < count, ∀ id, m.link method base i = some (.table id) → (m.table id).get key = .nil

/-- No handler that is met is a function. A handler of one of the first 100 links is met if no table
up to that link holds the key. -/
def MeetsNoFunction (m : Machine H) (method : Metamethod) (base key : Value) : Prop :=
  ∀ i < 100, m.Misses method base key (i + 1) →
    ∀ id, m.link method base (i + 1) ≠ some (.function id)

theorem misses_zero : m.Misses method base key 0 := by
  intro i hi
  omega

theorem Misses.mono {count : Nat} (h : m.Misses method base key count) (hle : i ≤ count) :
    m.Misses method base key i :=
  fun j hj => h j (hj.trans_le hle)

theorem misses_succ (hlink : m.link method base i = some value) :
    m.Misses method base key (i + 1) ↔
      m.Misses method base key i ∧ ∀ id, value = .table id → (m.table id).get key = .nil := by
  rw [Misses, Nat.forall_lt_succ_right, hlink]
  simp only [Option.some.injEq, Misses]

theorem MeetsNoFunction.link_ne (h : m.MeetsNoFunction method base key) (hi : i ≤ 100)
    (hmisses : m.Misses method base key i) :
    ∀ j < i, ∀ id, m.link method base (j + 1) ≠ some (.function id) :=
  fun j hj => h j (by omega) (hmisses.mono hj)

/-- A chain goes on for `count` links without the key, or there is a first link before that which
holds the key or has no handler. -/
theorem link_cases (m : Machine H) (method : Metamethod) (base key : Value) (count : Nat) :
    (m.Misses method base key count ∧ m.link method base count ≠ none) ∨
      ∃ i < count, ∃ value, m.link method base i = some value ∧ m.Misses method base key i ∧
        ((∃ id, value = .table id ∧ (m.table id).get key ≠ .nil) ∨
          m.Misses method base key (i + 1) ∧ m.link method base (i + 1) = none) := by
  induction count with
  | zero => exact .inl ⟨misses_zero, Option.some_ne_none base⟩
  | succ count ih =>
    obtain ⟨hmisses, hlink⟩ | ⟨i, hi, hstop⟩ := ih
    · obtain ⟨value, hvalue⟩ := Option.ne_none_iff_exists'.1 hlink
      by_cases hholds : ∃ id, value = .table id ∧ (m.table id).get key ≠ .nil
      · exact .inr ⟨count, Nat.lt_succ_self count, value, hvalue, hmisses, .inl hholds⟩
      · have hnext : m.Misses method base key (count + 1) := by
          refine (misses_succ hvalue).2 ⟨hmisses, fun id hid => ?_⟩
          by_contra hne
          exact hholds ⟨id, hid, hne⟩
        by_cases hend : m.link method base (count + 1) = none
        · exact .inr ⟨count, Nat.lt_succ_self count, value, hvalue, hmisses, .inr ⟨hnext, hend⟩⟩
        · exact .inl ⟨hnext, hend⟩
    · exact .inr ⟨i, hi.trans (Nat.lt_succ_self count), hstop⟩

end Machine

namespace Routine

variable {call : Invoker H} {α : Type}

/-- The value under a key that a base itself holds. -/
theorem run_ownEntry_table (id : TableId) (key : Value) :
    (ownEntry (.table id) key).run call m =
      some (.ok (if ((m.table id).get key).isNil then none else some ((m.table id).get key)), m) :=
  rfl

/-- A base that is no table, or one without the key, holds nothing under it. -/
theorem run_ownEntry_of_misses (h : ∀ id, base = .table id → (m.table id).get key = .nil) :
    (ownEntry base key).run call m = some (.ok none, m) := by
  cases base with
  | table id =>
    rw [run_ownEntry_table, h id rfl]
    rfl
  | _ => rfl

/-- If an operation hands on to the handler of each link that misses the key, then it comes to every
link that it does not stop before. -/
theorem run_eq_of_link (follow : Nat → Value → Routine H α)
    (hstep : ∀ links value next, (∀ id, value = .table id → (m.table id).get key = .nil) →
      m.metamethod value method = some next → (∀ id, next ≠ .function id) →
        (follow (links + 1) value).run call m = (follow links next).run call m)
    (hmisses : m.Misses method base key i)
    (hplain : ∀ j < i, ∀ id, m.link method base (j + 1) ≠ some (.function id))
    (hlink : m.link method base i = some value) (links : Nat) :
    (follow (links + i) base).run call m = (follow links value).run call m := by
  induction i generalizing value links with
  | zero =>
    obtain rfl : base = value := Option.some.inj hlink
    rfl
  | succ i ih =>
    obtain ⟨before, hbefore, hhandler⟩ := Machine.link_succ_eq_some.1 hlink
    obtain ⟨hearlier, hlast⟩ := (Machine.misses_succ hbefore).1 hmisses
    have hfunction : ∀ id, value ≠ .function id := by
      rintro id rfl
      exact hplain i (Nat.lt_succ_self i) id hlink
    calc (follow (links + (i + 1)) base).run call m
        = (follow (links + 1 + i) base).run call m := by rw [Nat.add_right_comm, Nat.add_assoc]
      _ = (follow (links + 1) before).run call m :=
        ih hearlier (fun j hj => hplain j (hj.trans (Nat.lt_succ_self i))) hbefore (links + 1)
      _ = (follow links value).run call m := hstep links before value hlast hhandler hfunction

end Routine

end LuaLang
