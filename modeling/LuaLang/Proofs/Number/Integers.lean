import Mathlib
import LuaLang.Proofs.Number.Literal

/-!
# Integers among the numbers

Magnitudes are ordered as their ranks are, and rounding never goes below a magnitude that it started
above. Integers up to `2 ^ 53` stand for themselves, so counting up from one of them is exact, and
comparisons of numbers that stand for rationals are comparisons of these.

## Main statements

* `Number.le_nearestRank`, `Number.magnitude_le_iff`: the order of ranks is that of magnitudes.
* `Number.lessEqual_iff`, `Number.equals_iff_eq`: so is that of finite numbers.
* `Number.toRat?_ofInt`: integers up to `2 ^ 53` are represented.
* `Number.ofInt_add_one`: counting.
-/

namespace LuaLang.Number

variable {x y : Number} {p q : ℚ} {r : Nat}

/-! ## Ranks and magnitudes -/

/-- Every rank is made up of its exponent and its significand, which reaches half of its range
unless the exponent is the smallest one. -/
theorem rank_eq (r : Nat) :
    (exponent r + 1074).toNat * binade + significand r = r ∧ -1074 ≤ exponent r ∧
      significand r < 2 * binade ∧ (-1074 < exponent r → binade ≤ significand r) := by
  have hbinade : 0 < binade := by decide
  have hsum := Nat.div_add_mod' r binade
  have hmod : r % binade < binade := Nat.mod_lt r hbinade
  rw [significand, exponent]
  split
  · next hlt =>
    rw [Nat.div_eq_of_lt hlt]
    refine ⟨by simp, by simp, by omega, ?_⟩
    intro h
    simp at h
  · next hge =>
    have hdiv : 1 ≤ r / binade := (Nat.one_le_div_iff hbinade).2 (by omega)
    obtain ⟨k, hk⟩ : ∃ k, r / binade = k + 1 := ⟨r / binade - 1, by omega⟩
    have hexponent : (((max 1 (k + 1) : Nat) : ℤ) - 1075 + 1074).toNat = k := by omega
    rw [hk] at hsum ⊢
    rw [hexponent]
    rw [Nat.add_mul] at hsum
    refine ⟨by omega, by omega, by omega, by omega⟩

theorem significand_pos (hr : 0 < r) : 0 < significand r := by
  obtain ⟨hsum, hlow, -, hnormal⟩ := rank_eq r
  have hbinade : 0 < binade := by decide
  by_contra hzero
  have hexponent : exponent r = -1074 := by
    by_contra hne
    have := hnormal (by omega)
    omega
  rw [hexponent] at hsum
  simp at hsum
  omega

theorem magnitude_pos (hr : 0 < r) : 0 < magnitude r := by
  have hsignificand : (0 : ℚ) < significand r := by exact_mod_cast significand_pos hr
  exact mul_pos hsignificand (zpow_pos (by norm_num) _)

/-- Above the smallest exponent a magnitude reaches a power of two of its own. -/
theorem zpow_le_magnitude (h : -1074 < exponent r) :
    (2 : ℚ) ^ (52 + exponent r) ≤ magnitude r := by
  obtain ⟨-, -, -, hnormal⟩ := rank_eq r
  calc (2 : ℚ) ^ (52 + exponent r) = (binade : Nat) * 2 ^ exponent r := by
        rw [zpow_add₀ (by norm_num), binade_eq]
        norm_num
    _ ≤ significand r * 2 ^ exponent r := by
        have : (binade : ℚ) ≤ significand r := by exact_mod_cast hnormal h
        gcongr

/-- Rounding does not go below a magnitude. -/
theorem le_nearestRank (h : magnitude r ≤ q) : r ≤ nearestRank q := by
  obtain rfl | hpositive := Nat.eq_zero_or_pos r
  · exact Nat.zero_le _
  obtain ⟨hr, hlow, hhigh, -⟩ := rank_eq r
  have hq : 0 < q := (magnitude_pos hpositive).trans_le h
  obtain ⟨hlog, hlog'⟩ := floorLog2_bounds hq
  rw [nearestRank, if_neg hq.ne']
  dsimp only
  rcases lt_trichotomy (max (floorLog2 q - 52) (-1074)) (exponent r) with hlt | heq | hgt
  · -- Then the rational would be below the power of two that the magnitude reaches.
    have hreach := (zpow_le_magnitude (r := r) (by omega)).trans h
    have := (zpow_lt_zpow_iff_right₀ (by norm_num)).1 (hreach.trans_lt hlog')
    omega
  · have hround : significand r ≤ roundRat (q / 2 ^ exponent r) := by
      refine floor_le_roundRat ?_
      rw [le_div_iff₀ (zpow_pos (by norm_num) _)]
      exact h
    rw [heq]
    omega
  · have hexponent : max (floorLog2 q - 52) (-1074) = floorLog2 q - 52 := by omega
    have hround := binade_le_roundRat hq
    rw [hexponent] at hgt ⊢
    have hmul : ((exponent r + 1074).toNat + 1) * binade ≤
        (floorLog2 q - 52 + 1074).toNat * binade := Nat.mul_le_mul_right _ (by omega)
    rw [Nat.add_mul] at hmul
    omega

theorem magnitude_le_iff {t : Nat} : magnitude r ≤ magnitude t ↔ r ≤ t := by
  have hle : ∀ {r t : Nat}, magnitude r ≤ magnitude t → r ≤ t := by
    intro r t h
    rw [← nearestRank_magnitude t]
    exact le_nearestRank h
  refine ⟨hle, fun h => ?_⟩
  by_contra hlt
  obtain rfl : r = t := le_antisymm h (hle (not_le.1 hlt).le)
  exact hlt le_rfl

theorem magnitude_le_zero_iff : magnitude r ≤ 0 ↔ r = 0 := by
  rw [← magnitude_zero, magnitude_le_iff, Nat.le_zero]

/-! ## Comparison -/

/-- Finite numbers are ordered as the rationals that they stand for. -/
theorem lessEqual_iff (hx : x.toRat? = some p) (hy : y.toRat? = some q) :
    x.lessEqual y = true ↔ p ≤ q := by
  cases x with
  | finite s r =>
    cases y with
    | finite t u =>
      cases hx
      cases hy
      have hr := magnitude_nonneg r
      have hu := magnitude_nonneg u
      have hle : magnitude r ≤ magnitude u ↔ r.val ≤ u.val := magnitude_le_iff
      have hge : magnitude u ≤ magnitude r ↔ u.val ≤ r.val := magnitude_le_iff
      cases s <;> cases t <;>
        simp only [lessEqual, place, signed, decide_eq_true_eq, Bool.false_eq_true, if_true,
          if_false]
      · rw [hle]
        omega
      · -- Only two zeros are in this order.
        constructor
        · intro h
          have hrzero : magnitude r ≤ 0 := magnitude_le_zero_iff.2 (by omega)
          have huzero : magnitude u ≤ 0 := magnitude_le_zero_iff.2 (by omega)
          linarith
        · intro h
          have hrzero : r.val = 0 := magnitude_le_zero_iff.1 (by linarith)
          have huzero : u.val = 0 := magnitude_le_zero_iff.1 (by linarith)
          omega
      · exact iff_of_true (by omega) (by linarith)
      · rw [neg_le_neg_iff, neg_le_neg_iff, hge]
        omega
    | _ => cases hy
  | _ => cases hx

theorem equals_iff_lessEqual :
    x.equals y = true ↔ x.lessEqual y = true ∧ y.lessEqual x = true := by
  rw [equals, lessEqual, lessEqual]
  cases x.place <;> cases y.place <;> grind

/-- Finite numbers are equal if they stand for the same rational. -/
theorem equals_iff_eq (hx : x.toRat? = some p) (hy : y.toRat? = some q) :
    x.equals y = true ↔ p = q := by
  rw [equals_iff_lessEqual, lessEqual_iff hx hy, lessEqual_iff hy hx, le_antisymm_iff]

theorem place_ofRank (negative : Bool) (r : Nat) :
    (ofRank negative r).place =
      some (if negative then -((min r rankCount : Nat) : ℤ) else (min r rankCount : Nat)) := by
  rw [ofRank]
  split
  · next h => rw [place, min_eq_left h.le]
  · next h => rw [place, min_eq_right (not_lt.1 h)]

/-- A rational that is not below a number of positive sign is not rounded below it. -/
theorem lessEqual_ofRat {rank : Fin rankCount} {zeroIsNegative : Bool} (h : magnitude rank ≤ q) :
    (finite false rank).lessEqual (ofRat zeroIsNegative q) = true := by
  have hrank := le_nearestRank h
  rcases (magnitude_nonneg rank).trans h |>.eq_or_lt with rfl | hpos
  · have hzero : rank.val = 0 := magnitude_le_zero_iff.1 h
    rw [ofRat, if_pos rfl]
    simp [lessEqual, place, zero, hzero]
  · rw [ofRat, if_neg hpos.ne', if_neg hpos.not_gt, lessEqual, place_ofRank]
    simp only [place, Bool.false_eq_true, if_false, decide_eq_true_eq]
    have := rank.isLt
    omega

/-- A negative rational is rounded below every number of positive sign but zero. -/
theorem lessEqual_ofRat_of_neg {rank : Fin rankCount} {zeroIsNegative : Bool}
    (hrank : rank.val ≠ 0) (h : q < 0) :
    (finite false rank).lessEqual (ofRat zeroIsNegative q) = false := by
  rw [ofRat, if_neg h.ne, if_pos h, lessEqual, place_ofRank]
  simp only [place, Bool.false_eq_true, if_false, if_true, decide_eq_false_iff_not]
  omega

/-! ## Integers -/

theorem magnitude_mul_add {k s : Nat} (hlow : binade ≤ s) (hhigh : s < 2 * binade) :
    magnitude (k * binade + s) = s * (2 : ℚ) ^ ((k : ℤ) - 1074) := by
  have hbinade : 0 < binade := by decide
  obtain ⟨t, rfl⟩ := Nat.exists_eq_add_of_le hlow
  have hdiv : (k * binade + (binade + t)) / binade = k + 1 := by
    rw [← Nat.add_assoc, ← Nat.succ_mul, Nat.mul_comm, Nat.mul_add_div hbinade,
      Nat.div_eq_of_lt (by omega), Nat.add_zero]
  have hmod : (k * binade + (binade + t)) % binade = t := by
    rw [← Nat.add_assoc, ← Nat.succ_mul, Nat.mul_add_mod_self_right, Nat.mod_eq_of_lt (by omega)]
  rw [magnitude, significand, if_neg (by omega), exponent, hdiv, hmod]
  congr 2
  omega

/-- Every integer up to `2 ^ 53` is a magnitude. -/
theorem exists_magnitude_eq {n : Nat} (h : n ≤ 2 ^ 53) : ∃ r < rankCount, magnitude r = n := by
  obtain rfl | hpos := Nat.eq_zero_or_pos n
  · exact ⟨0, by decide, by rw [magnitude_zero, Nat.cast_zero]⟩
  obtain rfl | hlt := h.eq_or_lt
  · refine ⟨1075 * binade + binade, by decide, ?_⟩
    rw [magnitude_mul_add le_rfl (by decide), binade_eq]
    norm_num
  · obtain ⟨rank, -, hrank, hlow, hhigh⟩ := ofNat_eq_finite hpos.ne' hlt
    have hlog : n.log2 ≤ 52 := Nat.lt_succ_iff.1 ((Nat.log2_lt hpos.ne').2 hlt)
    refine ⟨rank, rank.isLt, ?_⟩
    have hexponent : ((n.log2 + 1022 : Nat) : ℤ) - 1074 = -((52 - n.log2 : Nat) : ℤ) := by omega
    rw [hrank, magnitude_mul_add hlow hhigh, hexponent, zpow_neg, zpow_natCast, Nat.cast_mul,
      Nat.cast_pow, Nat.cast_ofNat, mul_assoc, mul_inv_cancel₀ (by positivity), mul_one]

/-- A rational whose amount is a magnitude is represented by the number that is nearest to it. -/
theorem toRat?_ofRat {zeroIsNegative : Bool} (hr : r < rankCount) (hq : |q| = magnitude r) :
    (ofRat zeroIsNegative q).toRat? = some q := by
  have hrank : nearestRank |q| = r := by rw [hq, nearestRank_magnitude]
  rcases lt_trichotomy q 0 with hneg | rfl | hpos
  · rw [abs_of_neg hneg] at hq hrank
    rw [ofRat, if_neg hneg.ne, if_pos hneg, ofRank, hrank, dif_pos hr]
    simp [toRat?, signed, ← hq]
  · rw [ofRat, if_pos rfl]
    cases zeroIsNegative <;> simp [toRat?, zero, signed, magnitude_zero]
  · rw [abs_of_pos hpos] at hq hrank
    rw [ofRat, if_neg hpos.ne', if_neg hpos.not_gt, ofRank, hrank, dif_pos hr]
    simp [toRat?, signed, hq]

theorem toRat?_ofRat_intCast {zeroIsNegative : Bool} {z : ℤ} (h : z.natAbs ≤ 2 ^ 53) :
    (ofRat zeroIsNegative z).toRat? = some (z : ℚ) := by
  obtain ⟨r, hr, hmagnitude⟩ := exists_magnitude_eq h
  refine toRat?_ofRat hr ?_
  rw [hmagnitude, Nat.cast_natAbs, Int.cast_abs]

/-- An integer up to `2 ^ 53` is represented by a number. -/
theorem toRat?_ofInt {z : ℤ} (h : z.natAbs ≤ 2 ^ 53) : (ofInt z).toRat? = some (z : ℚ) :=
  toRat?_ofRat_intCast h

theorem ofInt_natCast (n : Nat) : ofInt n = ofNat n := by
  rw [ofInt, ofNat, Int.cast_natCast]

theorem toRat?_ofNat {n : Nat} (h : n ≤ 2 ^ 53) : (ofNat n).toRat? = some (n : ℚ) := by
  rw [← ofInt_natCast, toRat?_ofInt (by omega), Int.cast_natCast]

theorem toRat?_eq_some (h : x.toRat? = some q) :
    ∃ s r, x = .finite s r ∧ signed s r = q := by
  cases x with
  | finite s r => exact ⟨s, r, rfl, Option.some.inj h⟩
  | _ => cases h

/-! ## Sums and differences -/

/-- The difference of finite numbers is the rounded difference of what they stand for. -/
theorem sub_eq_ofRat (hx : x.toRat? = some p) (hy : y.toRat? = some q) :
    ∃ zeroIsNegative, x - y = ofRat zeroIsNegative (p - q) := by
  obtain ⟨s, r, rfl, rfl⟩ := toRat?_eq_some hx
  obtain ⟨t, u, rfl, rfl⟩ := toRat?_eq_some hy
  refine ⟨s && !t, ?_⟩
  have hneg : signed (!t) u = -signed t u := by cases t <;> simp [signed]
  change ofRat (s && !t) (signed s r + signed (!t) u) = _
  rw [hneg, sub_eq_add_neg]

/-- Counting up by one from an integer is exact, and from minus one it leads to the positive
zero. -/
theorem ofInt_add_one {z : ℤ} (h : z.natAbs ≤ 2 ^ 53) : ofInt z + ofNat 1 = ofInt (z + 1) := by
  obtain ⟨s, r, hz, hvalue⟩ := toRat?_eq_some (toRat?_ofInt h)
  obtain ⟨one, hone, -⟩ := ofNat_eq_finite one_ne_zero (by decide : 1 < 2 ^ 53)
  have honeValue := toRat?_ofNat (by decide : 1 ≤ 2 ^ 53)
  rw [hone] at honeValue
  rw [hz, hone]
  change ofRat (s && false) (signed s r + signed false one) = _
  rw [Bool.and_false, hvalue, Option.some.inj honeValue, ofInt, Int.cast_add, Nat.cast_one,
    Int.cast_one]

end LuaLang.Number
