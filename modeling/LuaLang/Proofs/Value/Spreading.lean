import Mathlib
import LuaLang.Value.Spread

/-!
# Assigning is filling with all values

There are two ways from a list of expressions to values. One lays out all values of the list, the
other goes along the slots and takes from each expression what it needs. Both let only the last
expression spread, so the second one fills the slots with the values that the first one lays out.

## Main statements

* `Spread.assignFront_eq_fill`: the two ways agree.
* `Spread.assign_agrees_with_flatten`: what follows for every slot, and for an exact number of
  values.
-/

namespace LuaLang.Spread

theorem fill_eq (slots values : List Value) :
    fill slots values = values.take slots.length ++ slots.drop values.length := by
  fun_induction fill slots values with
  | case1 slots => simp
  | case2 values => simp
  | case3 slot slots value values ih => simp [ih]

/-- An expression that does not spread contributes one value. -/
theorem flatten_cons {spread : Spread} {rest : List Spread}
    (h : ∀ values, spread = many values → rest ≠ []) :
    flatten (spread :: rest) = spread.first :: flatten rest := by
  cases rest with
  | cons next rest => cases spread <;> rfl
  | nil =>
    cases spread with
    | one value => rfl
    | many values => exact absurd rfl (h values rfl)

/-- Going along the slots fills them with all values of the list. -/
theorem assignFront_eq_fill (slots : List Value) (spreads : List Spread) :
    assignFront slots spreads = fill slots (flatten spreads) := by
  fun_induction assignFront slots spreads with
  | case1 slots => simp [flatten, fill_eq]
  | case2 spreads => simp [fill_eq]
  | case3 slots values => rfl
  | case4 slot slots spread rest hlast ih =>
    rw [flatten_cons hlast, fill, ih]

/-! ## Slots one by one -/

theorem getElem?_fill (slots values : List Value) (i : Nat) :
    (fill slots values)[i]? =
      if i < slots.length ∧ i < values.length then values[i]? else slots[i]? := by
  rw [fill_eq, List.getElem?_append, List.length_take, List.getElem?_take, List.getElem?_drop]
  grind

theorem getElem?_assign (slots : List Value) (spreads : List Spread) (start i : Nat) :
    (assign slots spreads start)[i]? =
      if i < slots.length ∧ start ≤ i ∧ i < start + (flatten spreads).length then
        (flatten spreads)[i - start]?
      else slots[i]? := by
  rw [assign, assignFront_eq_fill, List.getElem?_append, List.length_take]
  split
  · next hbefore => rw [List.getElem?_take, if_pos (by omega), if_neg (by omega)]
  · next hafter =>
    rw [getElem?_fill, List.length_drop, List.getElem?_drop]
    grind

theorem adjust_eq_fit (spreads : List Spread) (count : Nat) :
    adjust spreads count = Value.fit count (flatten spreads) := by
  rw [adjust, assign, List.take_zero, List.nil_append, List.drop_zero, assignFront_eq_fill, fill_eq,
    List.length_replicate, List.drop_replicate, Value.fit]

/-- After an assignment the slot `i` holds the value number `i - start` of all values, if there is
such a value, and otherwise what it held before. An adjusted list is the list of all values, cut or
filled up with nil. -/
theorem assign_agrees_with_flatten (slots : List Value) (spreads : List Spread) :
    (∀ start i, (assign slots spreads start)[i]? =
      if i < slots.length ∧ start ≤ i ∧ i < start + (flatten spreads).length then
        (flatten spreads)[i - start]?
      else slots[i]?) ∧
    (∀ start, (assign slots spreads start).length = slots.length) ∧
    ∀ count, adjust spreads count = (flatten spreads).take count ++
        List.replicate (count - (flatten spreads).length) .nil ∧
      (adjust spreads count).length = count := by
  refine ⟨getElem?_assign slots spreads, length_assign slots spreads, fun count => ?_⟩
  rw [adjust_eq_fit]
  exact ⟨rfl, Value.length_fit count _⟩

/-- An empty call in an inner place gives nil, and in the last place nothing. -/
example : assign [.boolean true, .boolean true, .boolean true] [.many [], .many []] 1 =
    [.boolean true, .nil, .boolean true] := rfl

end LuaLang.Spread
