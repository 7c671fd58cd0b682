import Mathlib
import LuaLang.Number.Basic

/-!
# Rounding to ranks

The magnitude of a rank is nearest to itself, rationals from `2 ^ 1024` on are beyond all ranks, and
rationals below `2 ^ (-1075)` are nearest to zero. Integers below `2 ^ 53` are magnitudes.

## Main statements

* `Number.floorLog2_bounds`: the power of two below a rational.
* `Number.nearestRank_magnitude`: magnitudes round to themselves.
* `Number.rankCount_le_nearestRank`, `Number.nearestRank_eq_zero`: what is out of reach.
* `Number.ofNat_inj`: small integers are told apart.
* `Number.ofBits_toBits`: a number can be read back from its word.
-/

namespace LuaLang.Number

theorem binade_eq : binade = 2 ^ 52 := by decide

theorem natAbs_num {q : ℚ} (hq : 0 ≤ q) : (q.num.natAbs : ℚ) = q * q.den := by
  rw [Rat.mul_den_eq_num, Nat.cast_natAbs, abs_of_nonneg (Rat.num_nonneg.2 hq)]

theorem cast_den_pos (q : ℚ) : (0 : ℚ) < q.den := by exact_mod_cast q.den_pos

/-! ## Powers of two below a rational -/

theorem log2_bounds {n : Nat} (h : n ≠ 0) :
    (2 : ℚ) ^ (n.log2 : ℤ) ≤ n ∧ (n : ℚ) < 2 ^ ((n.log2 : ℤ) + 1) := by
  constructor
  · have hle : 2 ^ n.log2 ≤ n := Nat.log2_self_le h
    rw [zpow_natCast]
    exact_mod_cast hle
  · have hlt : n < 2 ^ (n.log2 + 1) := Nat.lt_log2_self
    rw [← Nat.cast_succ, zpow_natCast]
    exact_mod_cast hlt

theorem floorLog2_bounds {q : ℚ} (hq : 0 < q) :
    (2 : ℚ) ^ floorLog2 q ≤ q ∧ q < 2 ^ (floorLog2 q + 1) := by
  have hnum : q.num.natAbs ≠ 0 := by
    have := Rat.num_pos.2 hq
    omega
  obtain ⟨hn, hn'⟩ := log2_bounds hnum
  obtain ⟨hd, hd'⟩ := log2_bounds q.den_nz
  have hden := cast_den_pos q
  have hmul := natAbs_num hq.le
  generalize hk : (q.num.natAbs.log2 : ℤ) - q.den.log2 = k
  have hlow : (2 : ℚ) ^ (k - 1) ≤ q := by
    refine le_of_mul_le_mul_right ?_ hden
    calc (2 : ℚ) ^ (k - 1) * q.den ≤ 2 ^ (k - 1) * 2 ^ ((q.den.log2 : ℤ) + 1) := by gcongr
      _ = 2 ^ (q.num.natAbs.log2 : ℤ) := by
        rw [← zpow_add₀ (by norm_num)]
        congr 1
        omega
      _ ≤ q * q.den := hmul ▸ hn
  have hhigh : q < 2 ^ (k + 1) := by
    refine lt_of_mul_lt_mul_right ?_ hden.le
    calc q * q.den < 2 ^ ((q.num.natAbs.log2 : ℤ) + 1) := hmul ▸ hn'
      _ = 2 ^ (k + 1) * 2 ^ (q.den.log2 : ℤ) := by
        rw [← zpow_add₀ (by norm_num)]
        congr 1
        omega
      _ ≤ 2 ^ (k + 1) * q.den := by gcongr
  have hdef : floorLog2 q = if (2 : ℚ) ^ k ≤ q then k else k - 1 := by rw [floorLog2, hk]
  rw [hdef]
  split
  · next h => exact ⟨h, hhigh⟩
  · next h => exact ⟨hlow, by simpa using h⟩

/-- The power of two below a rational is the only one that it lies above, and below its double. -/
theorem floorLog2_eq {q : ℚ} {k : ℤ} (hlow : (2 : ℚ) ^ k ≤ q) (hhigh : q < 2 ^ (k + 1)) :
    floorLog2 q = k := by
  obtain ⟨h, h'⟩ := floorLog2_bounds ((zpow_pos (by norm_num) k).trans_le hlow)
  have h1 : floorLog2 q < k + 1 := (zpow_lt_zpow_iff_right₀ (by norm_num)).1 (h.trans_lt hhigh)
  have h2 : k < floorLog2 q + 1 := (zpow_lt_zpow_iff_right₀ (by norm_num)).1 (hlow.trans_lt h')
  omega

/-! ## Rounding to integers -/

theorem roundDiv_one (n : Nat) : roundDiv n 1 = n := by
  simp [roundDiv]
  omega

theorem roundRat_natCast (n : Nat) : roundRat n = n := by
  rw [roundRat, Rat.num_natCast, Rat.den_natCast, Int.natAbs_natCast, roundDiv_one]

theorem floor_le_roundRat {q : ℚ} {n : Nat} (h : (n : ℚ) ≤ q) : n ≤ roundRat q := by
  have hfloor : n ≤ q.num.natAbs / q.den := by
    rw [Nat.le_div_iff_mul_le q.den_pos]
    have hq : (0 : ℚ) ≤ q := (Nat.cast_nonneg n).trans h
    have hmul : (n : ℚ) * q.den ≤ q.num.natAbs := by
      rw [natAbs_num hq]
      gcongr
    exact_mod_cast hmul
  rw [roundRat, roundDiv]
  split <;> omega

theorem roundRat_eq_zero {q : ℚ} (hq : 0 ≤ q) (h : 2 * q < 1) : roundRat q = 0 := by
  have hlt : 2 * q.num.natAbs < q.den := by
    have hmul : 2 * (q.num.natAbs : ℚ) < q.den := by
      rw [natAbs_num hq, ← mul_assoc]
      exact mul_lt_of_lt_one_left (cast_den_pos q) h
    exact_mod_cast hmul
  have hdiv : q.num.natAbs / q.den = 0 := Nat.div_eq_of_lt (by omega)
  have hmod : q.num.natAbs % q.den = q.num.natAbs := Nat.mod_eq_of_lt (by omega)
  rw [roundRat, roundDiv, hdiv, hmod]
  exact if_pos (.inl hlt)

/-! ## Ranks -/

theorem floorLog2_mul_zpow {m : Nat} (hm : m ≠ 0) (e : ℤ) :
    floorLog2 (m * (2 : ℚ) ^ e) = m.log2 + e := by
  obtain ⟨hlow, hhigh⟩ := log2_bounds hm
  have hpos : (0 : ℚ) < 2 ^ e := zpow_pos (by norm_num) e
  refine floorLog2_eq ?_ ?_
  · rw [zpow_add₀ (by norm_num)]
    gcongr
  · rw [show (m.log2 : ℤ) + e + 1 = (m.log2 + 1) + e by omega, zpow_add₀ (by norm_num)]
    gcongr

theorem nearestRank_mul_zpow {m : Nat} (hm : m ≠ 0) {e : ℤ}
    (he : max (m.log2 + e - 52) (-1074) = e) :
    nearestRank (m * (2 : ℚ) ^ e) = (e + 1074).toNat * binade + m := by
  have hpos : (0 : ℚ) < 2 ^ e := zpow_pos (by norm_num) e
  have hne : (m : ℚ) * 2 ^ e ≠ 0 := mul_ne_zero (by exact_mod_cast hm) hpos.ne'
  rw [nearestRank, if_neg hne]
  dsimp only
  rw [floorLog2_mul_zpow hm, he, mul_div_cancel_right₀ _ hpos.ne', roundRat_natCast]

/-- A magnitude is nearest to itself. -/
theorem nearestRank_magnitude (rank : Nat) : nearestRank (magnitude rank) = rank := by
  have hbinade : 0 < binade := by decide
  obtain rfl | hpos := Nat.eq_zero_or_pos rank
  · simp [magnitude, significand, nearestRank, binade]
  rw [magnitude, significand, exponent]
  split
  · next hlt =>
    have hlog : rank.log2 < 52 := (Nat.log2_lt hpos.ne').2 (binade_eq ▸ hlt)
    rw [Nat.div_eq_of_lt hlt, nearestRank_mul_zpow hpos.ne' (by simp; omega)]
    simp
  · next hge =>
    have hdiv : 1 ≤ rank / binade := (Nat.one_le_div_iff hbinade).2 (by omega)
    have hmod : rank % binade < binade := Nat.mod_lt _ hbinade
    have hlog : (binade + rank % binade).log2 = 52 := by
      rw [Nat.log2_eq_iff (by omega)]
      rw [← binade_eq, pow_succ, ← binade_eq]
      omega
    have hsum := Nat.div_add_mod' rank binade
    rw [Nat.max_eq_right hdiv, nearestRank_mul_zpow (by omega) (by omega)]
    obtain ⟨k, hk⟩ : ∃ k, rank / binade = k + 1 := ⟨rank / binade - 1, by omega⟩
    rw [hk] at hsum ⊢
    have hexp : (((k + 1 : Nat) : ℤ) - 1075 + 1074).toNat = k := by omega
    rw [hexp]
    rw [Nat.add_mul] at hsum
    omega

/-- Behind its power of two, a positive rational has at least as many places as a magnitude. -/
theorem binade_le_roundRat {q : ℚ} (hq : 0 < q) :
    binade ≤ roundRat (q / 2 ^ (floorLog2 q - 52)) := by
  have hpos : (0 : ℚ) < 2 ^ (floorLog2 q - 52) := zpow_pos (by norm_num) _
  refine floor_le_roundRat ?_
  rw [le_div_iff₀ hpos, binade_eq]
  calc ((2 ^ 52 : Nat) : ℚ) * 2 ^ (floorLog2 q - 52)
      = 2 ^ (52 : ℤ) * 2 ^ (floorLog2 q - 52) := by norm_num
    _ = 2 ^ floorLog2 q := by
      rw [← zpow_add₀ (by norm_num)]
      congr 1
      omega
    _ ≤ q := (floorLog2_bounds hq).1

/-- Rationals from `2 ^ 1024` on are beyond all ranks. -/
theorem rankCount_le_nearestRank {q : ℚ} (h : (2 : ℚ) ^ (1024 : ℤ) ≤ q) :
    rankCount ≤ nearestRank q := by
  have hq : 0 < q := (zpow_pos (by norm_num) _).trans_le h
  have hlog : 1024 ≤ floorLog2 q := by
    have := (zpow_lt_zpow_iff_right₀ (by norm_num)).1 (h.trans_lt (floorLog2_bounds hq).2)
    omega
  have hround := binade_le_roundRat hq
  rw [nearestRank, if_neg hq.ne']
  dsimp only
  rw [max_eq_left (by omega)]
  have hexp : 2046 ≤ (floorLog2 q - 52 + 1074).toNat := by omega
  have hmul : 2046 * binade ≤ (floorLog2 q - 52 + 1074).toNat * binade :=
    Nat.mul_le_mul_right _ hexp
  rw [rankCount]
  omega

/-- Rationals below half of the smallest magnitude are nearest to zero. -/
theorem nearestRank_eq_zero {q : ℚ} (hq : 0 < q) (h : q < (2 : ℚ) ^ (-1075 : ℤ)) :
    nearestRank q = 0 := by
  obtain ⟨hlow, -⟩ := floorLog2_bounds hq
  have hlog : floorLog2 q < -1075 := (zpow_lt_zpow_iff_right₀ (by norm_num)).1 (hlow.trans_lt h)
  rw [nearestRank, if_neg hq.ne']
  dsimp only
  rw [max_eq_right (by omega)]
  have hpos : (0 : ℚ) < 2 ^ (-1074 : ℤ) := zpow_pos (by norm_num) _
  have hround : roundRat (q / 2 ^ (-1074 : ℤ)) = 0 := by
    refine roundRat_eq_zero (by positivity) ?_
    rw [← mul_div_assoc, div_lt_one hpos]
    calc 2 * q < 2 * 2 ^ (-1075 : ℤ) := by gcongr
      _ = 2 ^ (-1074 : ℤ) := by
        rw [← zpow_one_add₀ (by norm_num)]
        norm_num
  rw [hround]
  rfl

/-! ## Integers -/

/-- A positive integer below `2 ^ 53` is a magnitude. -/
theorem ofNat_eq_finite {n : Nat} (hn : n ≠ 0) (hlt : n < 2 ^ 53) :
    ∃ rank : Fin rankCount, ofNat n = .finite false rank ∧
      rank.val = (n.log2 + 1022) * binade + n * 2 ^ (52 - n.log2) ∧
      binade ≤ n * 2 ^ (52 - n.log2) ∧ n * 2 ^ (52 - n.log2) < 2 * binade := by
  have hlog : n.log2 ≤ 52 := by
    have := (Nat.log2_lt hn).2 hlt
    omega
  obtain ⟨hlow, hhigh⟩ := (Nat.log2_eq_iff hn).1 rfl
  have hfrom : binade ≤ n * 2 ^ (52 - n.log2) := by
    calc binade = 2 ^ n.log2 * 2 ^ (52 - n.log2) := by
          rw [← pow_add, Nat.add_sub_cancel' hlog, binade_eq]
      _ ≤ n * 2 ^ (52 - n.log2) := Nat.mul_le_mul_right _ hlow
  have hto : n * 2 ^ (52 - n.log2) < 2 * binade := by
    calc n * 2 ^ (52 - n.log2) < 2 ^ (n.log2 + 1) * 2 ^ (52 - n.log2) := by gcongr
      _ = 2 * binade := by
          rw [← pow_add, binade_eq, ← pow_succ']
          congr 1
          omega
  have hvalue : ((n * 2 ^ (52 - n.log2) : Nat) : ℚ) * 2 ^ ((n.log2 : ℤ) - 52) = n := by
    rw [Nat.cast_mul, Nat.cast_pow, Nat.cast_ofNat, mul_assoc, ← zpow_natCast,
      ← zpow_add₀ (by norm_num), show ((52 - n.log2 : Nat) : ℤ) + ((n.log2 : ℤ) - 52) = 0 by omega,
      zpow_zero, mul_one]
  have hne : n * 2 ^ (52 - n.log2) ≠ 0 := Nat.mul_ne_zero hn (by positivity)
  have hmlog : (n * 2 ^ (52 - n.log2)).log2 = 52 := by
    rw [Nat.log2_eq_iff hne, ← binade_eq, pow_succ, ← binade_eq]
    omega
  have hrank := nearestRank_mul_zpow (e := (n.log2 : ℤ) - 52) hne (by rw [hmlog]; omega)
  rw [hvalue, show ((n.log2 : ℤ) - 52 + 1074).toNat = n.log2 + 1022 by omega] at hrank
  have hbound : (n.log2 + 1022) * binade + n * 2 ^ (52 - n.log2) < rankCount := by
    have : (n.log2 + 1022) * binade ≤ 1074 * binade := Nat.mul_le_mul_right _ (by omega)
    rw [rankCount]
    omega
  refine ⟨⟨_, hbound⟩, ?_, rfl, hfrom, hto⟩
  have hpos : (0 : ℚ) < n := by exact_mod_cast Nat.pos_of_ne_zero hn
  rw [ofNat, ofRat, if_neg hpos.ne', if_neg hpos.not_gt, ofRank, hrank, dif_pos hbound]

/-- Positive integers below `2 ^ 53` are told apart. -/
theorem ofNat_inj {m n : Nat} (hm : m ≠ 0 ∧ m < 2 ^ 53) (hn : n ≠ 0 ∧ n < 2 ^ 53)
    (h : ofNat m = ofNat n) : m = n := by
  obtain ⟨i, hi, hirank, hilow, hihigh⟩ := ofNat_eq_finite hm.1 hm.2
  obtain ⟨j, hj, hjrank, hjlow, hjhigh⟩ := ofNat_eq_finite hn.1 hn.2
  rw [hi, hj] at h
  obtain rfl : i = j := by simpa using h
  rw [hirank] at hjrank
  have hlog : m.log2 = n.log2 := by
    simp only [binade] at hjrank hilow hihigh hjlow hjhigh
    omega
  rw [hlog, Nat.add_left_cancel_iff] at hjrank
  exact Nat.eq_of_mul_eq_mul_right (by positivity) hjrank

/-! ## Words of 64 bits -/

theorem toNat_word {negative : Bool} {rank : Nat} (hrank : rank ≤ rankCount) :
    (toBits.word negative rank).toNat = (if negative then signBit else 0) + rank := by
  have hcount : rankCount = 0x7ff0000000000000 := by decide
  have hsign : signBit = 0x8000000000000000 := rfl
  refine UInt64.toNat_ofNat_of_lt' ?_
  split <;> simp only [UInt64.size] <;> omega

theorem ofBits_word {negative : Bool} {rank : Nat} (hrank : rank ≤ rankCount) :
    ofBits (toBits.word negative rank) = ofRank negative rank := by
  have hlt : rank < signBit := hrank.trans_lt (by decide)
  rw [ofBits, toNat_word hrank]
  cases negative with
  | false =>
    simp only [Bool.false_eq_true, if_false, Nat.zero_add, Nat.mod_eq_of_lt hlt, if_pos hrank,
      decide_eq_false hlt.not_ge]
  | true =>
    simp only [if_true, Nat.add_mod_left, Nat.mod_eq_of_lt hlt, if_pos hrank,
      decide_eq_true (Nat.le_add_right signBit rank)]

/-- A number can be read back from its word. -/
theorem ofBits_toBits : Function.LeftInverse ofBits toBits := by
  intro x
  cases x with
  | nan => decide
  | infinite negative => exact (ofBits_word le_rfl).trans (dif_neg (lt_irrefl _))
  | finite negative rank => exact (ofBits_word rank.isLt.le).trans (dif_pos rank.isLt)

end LuaLang.Number
