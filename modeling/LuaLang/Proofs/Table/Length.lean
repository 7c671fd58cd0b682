import Mathlib
import LuaLang.Proofs.Table.History

/-!
# The length of a table is a border

The search for the length keeps a present position below an absent one, first while it doubles the
upper one and then while it halves what is between them. The positions in between may be present or
absent in any pattern, so which border is found depends on the table, but what is found is one. The
search stays below the first absent power of two, and as long as that is at most `2 ^ 52`, every
position that it looks at is a key of its own.

## Main definitions

* `Table.BorderWithin`: a border between two bounds.

## Main statements

* `Table.get_ofList_ofNat`: the values of a list are at their positions.
* `Table.bisect_borderWithin`, `Table.search_borderWithin`: what the two phases find.
* `Table.length_eq`: the length of a sequence.
* `Table.length_border`: what follows for the length of any table.
-/

namespace LuaLang.Table

variable {t : Table} {low high n : Nat}

/-! ## Positions -/

theorem present_iff : t.present n = true ↔ t.get (.ofNat n) ≠ .nil := by
  rw [present, contains, Bool.not_eq_true', isNil_eq_false_iff]

theorem present_eq_false_iff : t.present n = false ↔ t.get (.ofNat n) = .nil := by
  rw [← Bool.not_eq_true, present_iff, not_not]

theorem elementAt_ofNat {start : Nat} (hstart : start ≠ 0) (values : List Value)
    (hlength : start + values.length ≤ 2 ^ 53) (hfrom : start ≤ n) (hn : n < 2 ^ 53) :
    elementAt start values (.ofNat n) = values.getD (n - start) .nil := by
  induction values generalizing start with
  | nil => rfl
  | cons first rest ih =>
    rw [List.length_cons] at hlength
    have hposition : start ≠ 0 ∧ start < 2 ^ 53 := ⟨hstart, by omega⟩
    rw [elementAt_cons]
    by_cases hequal : start = n
    · subst hequal
      rw [if_pos ((rawEqual_ofNat_iff hposition _).2 rfl), Nat.sub_self]
      rfl
    · have hforms : ¬(Value.ofNat start).rawEqual (.ofNat n) = true := by
        rw [rawEqual_ofNat_iff hposition]
        exact fun hform => hequal (keyForm_ofNat_inj hposition ⟨by omega, hn⟩ hform)
      obtain ⟨i, rfl⟩ := Nat.exists_eq_add_of_lt (lt_of_le_of_ne hfrom hequal)
      rw [if_neg hforms, ih (by omega) (by omega) (by omega)]
      rw [show start + i + 1 - (start + 1) = i by omega,
        show start + i + 1 - start = i + 1 by omega]
      rfl

/-- A table made from a list has the values of the list at their positions. -/
theorem get_ofList_ofNat {values : List Value} (hlength : values.length < 2 ^ 32) (hpos : 1 ≤ n)
    (hn : n < 2 ^ 53) : (ofList values).get (.ofNat n) = values.getD (n - 1) .nil := by
  rw [(valid_ofList hlength).2]
  exact elementAt_ofNat one_ne_zero values (by omega) hpos hn

/-! ## The search -/

/-- A position from `low` on and below `high` that is present, while the next one is absent. -/
structure BorderWithin (t : Table) (low high n : Nat) : Prop where
  low_le : low ≤ n
  lt_high : n < high
  present : t.present n = true
  absent : t.present (n + 1) = false

theorem BorderWithin.mono {low' high' : Nat} (h : t.BorderWithin low high n) (hlow : low' ≤ low)
    (hhigh : high ≤ high') : t.BorderWithin low' high' n :=
  ⟨hlow.trans h.low_le, h.lt_high.trans_le hhigh, h.present, h.absent⟩

/-- Bisection ends at a border, whatever is between the present position and the absent one. -/
theorem bisect_borderWithin (hlow : t.present low = true) (hhigh : t.present high = false)
    (hlt : low < high) : t.BorderWithin low high (t.bisect low high) := by
  fun_induction bisect t low high with
  | case1 low high hgap middle hmiddle ih =>
    have hbetween : low < middle ∧ middle < high := by
      simp only [middle]
      omega
    exact (ih hmiddle hhigh hbetween.2).mono hbetween.1.le le_rfl
  | case2 low high hgap middle hmiddle ih =>
    have hbetween : low < middle ∧ middle < high := by
      simp only [middle]
      omega
    have habsent : t.present middle = false := by simpa using hmiddle
    exact (ih hlow habsent hbetween.1).mono le_rfl hbetween.2.le
  | case3 low high hgap =>
    obtain rfl : high = low + 1 := by omega
    exact ⟨le_rfl, hlt, hlow, hhigh⟩

theorem bisect_double_borderWithin {k : Nat} (hlow : t.present low = true) (hpos : 0 < low)
    (hdouble : t.present (2 * low) = false) :
    t.BorderWithin low (2 ^ (k + 1) * low) (t.bisect low (2 * low)) := by
  have hle : 2 * low ≤ 2 ^ (k + 1) * low :=
    Nat.mul_le_mul_right low (Nat.le_self_pow (Nat.succ_ne_zero k) 2)
  exact (bisect_borderWithin hlow hdouble (by omega)).mono le_rfl hle

/-- Doubling stops at the first absent position that it comes to, and never goes past one. -/
theorem search_borderWithin {doublings k : Nat} (hlow : t.present low = true) (hpos : 0 < low)
    (hk : k ≤ doublings) (habsent : t.present (2 ^ (k + 1) * low) = false) :
    t.BorderWithin low (2 ^ (k + 1) * low) (t.search low doublings) := by
  induction doublings generalizing low k with
  | zero =>
    obtain rfl : k = 0 := by omega
    have hdouble : t.present (2 * low) = false := habsent
    rw [search, hdouble]
    exact bisect_double_borderWithin hlow hpos hdouble
  | succ doublings ih =>
    rw [search]
    cases hdouble : t.present (2 * low) with
    | false => exact bisect_double_borderWithin hlow hpos hdouble
    | true =>
      -- The absent position is further up, and from here it is one doubling less away.
      cases k with
      | zero => exact absurd (habsent.symm.trans hdouble) Bool.false_ne_true
      | succ k =>
        have hpower : 2 ^ (k + 1 + 1) * low = 2 ^ (k + 1) * (2 * low) := by ring
        rw [hpower] at habsent ⊢
        exact (ih hdouble (by omega) (by omega) habsent).mono (by omega) le_rfl

/-! ## The length -/

/-- The length is zero, or a border below a power of two that is absent. -/
theorem length_cases {k : Nat} (hk : k ≤ 52) (habsent : t.present (2 ^ k) = false) :
    t.length = 0 ∧ t.present 1 = false ∨ t.BorderWithin 1 (2 ^ k) t.length := by
  rw [length]
  cases hone : t.present 1 with
  | false => exact .inl ⟨rfl, rfl⟩
  | true =>
    refine .inr ?_
    cases k with
    | zero => exact absurd (habsent.symm.trans hone) Bool.false_ne_true
    | succ k => simpa using search_borderWithin hone one_pos (by omega) (by simpa using habsent)

/-- The length of a table in which the positions from one to `n` are present and no others. -/
theorem length_eq {k : Nat} (hk : k ≤ 52) (habsent : t.present (2 ^ k) = false)
    (hpresent : ∀ i, 1 ≤ i → i ≤ 2 ^ 52 → (t.present i = true ↔ i ≤ n)) : t.length = n := by
  have hpower : 2 ^ k ≤ 2 ^ 52 := Nat.pow_le_pow_right two_pos hk
  obtain ⟨hzero, hone⟩ | ⟨hfrom, hto, hlast, hnext⟩ := length_cases hk habsent
  · have hempty : ¬1 ≤ n := by
      rw [← hpresent 1 le_rfl Nat.one_le_two_pow, hone]
      exact Bool.false_ne_true
    omega
  · have hle := (hpresent _ hfrom (by omega)).1 hlast
    have hgt : ¬t.length + 1 ≤ n := by
      rw [← hpresent _ (by omega) (by omega), hnext]
      exact Bool.false_ne_true
    omega

/-- If at least one of the positions 1, 2, 4, …, `2 ^ 52` has no value, the length is a border:
zero if the first position has no value, and otherwise a position that has a value while the next
one has none. If the positions that have values are those from one to `n` and no others, of which
only the ones up to `2 ^ 52` matter, it is `n`. -/
theorem length_border (habsent : ∃ k ≤ 52, t.get (.ofNat (2 ^ k)) = .nil) :
    (t.length = 0 ∧ t.get (.ofNat 1) = .nil ∨
      1 ≤ t.length ∧ t.get (.ofNat t.length) ≠ .nil ∧ t.get (.ofNat (t.length + 1)) = .nil) ∧
    t.length < 2 ^ 52 ∧
    ∀ n, (∀ i, 1 ≤ i → i ≤ 2 ^ 52 → (t.get (.ofNat i) ≠ .nil ↔ i ≤ n)) → t.length = n := by
  obtain ⟨k, hk, hnil⟩ := habsent
  have hpower : 2 ^ k ≤ 2 ^ 52 := Nat.pow_le_pow_right two_pos hk
  rw [← present_eq_false_iff] at hnil
  refine ⟨?_, ?_, fun n hpresent => length_eq hk hnil ?_⟩
  · obtain ⟨hzero, hone⟩ | hborder := length_cases hk hnil
    · exact .inl ⟨hzero, present_eq_false_iff.1 hone⟩
    · exact .inr ⟨hborder.low_le, present_iff.1 hborder.present,
        present_eq_false_iff.1 hborder.absent⟩
  · obtain ⟨hzero, -⟩ | hborder := length_cases hk hnil
    · rw [hzero]
      exact Nat.two_pow_pos 52
    · exact hborder.lt_high.trans_le hpower
  · intro i hfrom hto
    rw [present_iff, hpresent i hfrom hto]

/-- A list with a hole has more than one border, and one without has only its length. -/
theorem length_border_hole :
    ((ofList [.boolean true, .boolean true, .nil, .boolean true]).length = 2 ∨
      (ofList [.boolean true, .boolean true, .nil, .boolean true]).length = 4) ∧
    (ofList [.boolean true, .boolean true, .boolean true]).length = 3 := by
  constructor
  · generalize hvalues : [Value.boolean true, .boolean true, .nil, .boolean true] = values
    have hget : ∀ i, 1 ≤ i → i < 2 ^ 53 →
        (ofList values).get (.ofNat i) = values.getD (i - 1) .nil := fun i =>
      get_ofList_ofNat (by simp [← hvalues])
    have habsent : ∃ k ≤ 52, (ofList values).get (.ofNat (2 ^ k)) = .nil :=
      ⟨3, by decide, by rw [hget _ (by decide) (by decide), ← hvalues]; rfl⟩
    obtain ⟨⟨-, hone⟩ | ⟨hfrom, hlast, hnext⟩, hlt, -⟩ := length_border habsent
    · rw [hget 1 le_rfl (by decide), ← hvalues] at hone
      cases hone
    · rw [hget _ hfrom (by omega)] at hlast
      rw [hget _ (by omega) (by omega)] at hnext
      generalize (ofList values).length = n at *
      subst hvalues
      match n with
      | 0 | 1 | 3 => simp at hlast hnext
      | 2 => exact .inl rfl
      | 4 => exact .inr rfl
      | n + 5 => simp at hlast
  · have hlength : [Value.boolean true, .boolean true, .boolean true].length < 2 ^ 32 := by decide
    have habsent : (ofList [.boolean true, .boolean true, .boolean true]).get (.ofNat (2 ^ 2)) =
        .nil := get_ofList_ofNat hlength (by decide) (by decide)
    obtain ⟨-, -, hsequence⟩ := length_border ⟨2, by decide, habsent⟩
    refine hsequence 3 fun i hfrom hto => ?_
    rw [get_ofList_ofNat hlength hfrom (by omega)]
    match i with
    | 0 => omega
    | 1 | 2 | 3 => simp
    | i + 4 => simp

end LuaLang.Table
