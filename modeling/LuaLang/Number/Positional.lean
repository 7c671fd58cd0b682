/-!
# Digits of a base

What a row of digits is worth. Taking digits one by one multiplies a number that grows with each of
them; taking them two by two, as digits of the square of the base, comes to the same, and rows of a
million digits are no trouble.

## Main definitions

* `Number.valueFrom`: the worth of digits, one by one.
* `Number.valueByPairs`: the same in rounds of pairs, as `valueByPairs_eq` says.
-/

namespace LuaLang.Number

/-- What digits are worth in a base, after digits that are worth `n`. -/
def valueFrom (base n : Nat) (digits : List Nat) : Nat :=
  digits.foldl (fun n d => base * n + d) n

theorem le_valueFrom {base : Nat} (hpos : 0 < base) (n : Nat) (digits : List Nat) :
    n ≤ valueFrom base n digits := by
  induction digits generalizing n with
  | nil => exact Nat.le_refl n
  | cons d digits ih =>
    have hn : n ≤ base * n := Nat.le_mul_of_pos_left n hpos
    exact Nat.le_trans (by omega) (ih (base * n + d))

/-- Takes digits two by two, as digits of the square of their base. -/
def pairUp (base : Nat) : List Nat → List Nat
  | a :: b :: rest => (base * a + b) :: pairUp base rest
  | digits => digits

theorem valueFrom_pairUp (base n : Nat) (digits : List Nat) (h : digits.length % 2 = 0) :
    valueFrom (base * base) n (pairUp base digits) = valueFrom base n digits := by
  fun_induction pairUp base digits generalizing n with
  | case1 a b rest ih =>
    have even : rest.length % 2 = 0 := by
      simp only [List.length_cons] at h
      omega
    simp only [valueFrom, List.foldl_cons] at ih ⊢
    rw [ih _ even]
    congr 1
    grind
  | case2 digits single =>
    match digits, single with
    | [], _ => rfl
    | [_], _ => simp at h
    | a :: b :: rest, single => exact absurd rfl (single a b rest)

/-- An even number of digits that are worth the same. -/
def padEven (digits : List Nat) : List Nat :=
  if digits.length % 2 = 0 then digits else 0 :: digits

theorem length_padEven (digits : List Nat) : (padEven digits).length % 2 = 0 := by
  unfold padEven
  split
  · assumption
  · simp only [List.length_cons]
    omega

theorem valueFrom_padEven (base : Nat) (digits : List Nat) :
    valueFrom base 0 (padEven digits) = valueFrom base 0 digits := by
  unfold padEven
  split <;> simp [valueFrom]

/-- What digits are worth in a base, after `rounds` rounds of taking them two by two. -/
def valueByPairs (base : Nat) : Nat → List Nat → Nat
  | 0, digits => valueFrom base 0 digits
  | rounds + 1, digits => valueByPairs (base * base) rounds (pairUp base (padEven digits))

theorem valueByPairs_eq (base rounds : Nat) (digits : List Nat) :
    valueByPairs base rounds digits = valueFrom base 0 digits := by
  induction rounds generalizing base digits with
  | zero => rfl
  | succ rounds ih =>
    rw [valueByPairs, ih, valueFrom_pairUp _ _ _ (length_padEven digits), valueFrom_padEven]

end LuaLang.Number
