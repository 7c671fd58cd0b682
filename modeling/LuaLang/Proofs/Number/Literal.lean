import Mathlib
import LuaLang.Number.Numeral
import LuaLang.Proofs.Number.Rounding
import LuaLang.Tree.Printer

/-!
# Number literals read back

The numbers that a literal can stand for have a positive sign, and such a number is what its own
literal stands for: the digits that are chosen round to the magnitude they were chosen for, and
nothing is lost on the way from digits to text and back.

## Main definitions

* `Number.IsLiteral`: the numbers that literals stand for.
* `Decimal.value`: the rational that a decimal stands for.

## Main statements

* `Number.isLiteral_of_ofLiteral?`: a literal stands for such a number.
* `Number.ofLiteral?_numberLiteral`: and the literal of such a number stands for it.
-/

namespace LuaLang

/-! ## Digits -/

namespace Number

/-- A class of characters without blanks in it. -/
theorem isBlank_eq_false {p : Char → Bool} {c : Char} (hc : p c = true)
    (hp : [' ', '\t', '\n', '\r', '\x0b', '\x0c'].any p = false) : isBlank c = false := by
  rw [← Bool.not_eq_true]
  intro hblank
  have hmem : c ∈ [' ', '\t', '\n', '\r', '\x0b', '\x0c'] := by simpa [isBlank] using hblank
  exact List.any_eq_false.1 hp c hmem hc

theorem decimalValue_eq_ofDigitChars (cs : List Char) :
    decimalValue cs = Nat.ofDigitChars 10 cs 0 := by
  rw [decimalValue_eq_foldl, Nat.ofDigitChars_eq_foldl]
  rfl

theorem decimalValue_toDigits (n : Nat) : decimalValue (Nat.toDigits 10 n) = n := by
  rw [decimalValue_eq_ofDigitChars, Nat.ofDigitChars_ten_toDigits]

theorem isDigit_toDigits {n : Nat} {c : Char} (h : c ∈ Nat.toDigits 10 n) : c.isDigit = true :=
  Nat.isDigit_of_mem_toDigits (by decide) (by decide) h

theorem toDigits_eq_cons (n : Nat) :
    ∃ d ds, Nat.toDigits 10 n = d :: ds ∧ ∀ c ∈ d :: ds, c.isDigit = true := by
  obtain ⟨d, ds, hds⟩ := List.exists_cons_of_ne_nil (Nat.toDigits_ne_nil (n := n) (b := 10))
  exact ⟨d, ds, hds, fun c hc => isDigit_toDigits (n := n) (hds ▸ hc)⟩

theorem toDigits_bounds {n : Nat} (hn : n ≠ 0) :
    10 ^ ((Nat.toDigits 10 n).length - 1) ≤ n ∧ n < 10 ^ (Nat.toDigits 10 n).length := by
  have hlength : 0 < (Nat.toDigits 10 n).length := Nat.length_toDigits_pos
  refine ⟨?_, (Nat.length_toDigits_le_iff (by decide) hlength).1 le_rfl⟩
  by_contra hlt
  by_cases hone : (Nat.toDigits 10 n).length = 1
  · simp [hone] at hlt
    exact hn hlt
  · have := (Nat.length_toDigits_le_iff (by decide) (by omega)).2 (not_le.1 hlt)
    omega

theorem toList_toString_natCast (n : Nat) : (toString (n : ℤ)).toList = Nat.toDigits 10 n :=
  Nat.toList_repr

theorem toList_toString_negSucc (n : Nat) :
    (toString (Int.negSucc n)).toList = '-' :: Nat.toDigits 10 (n + 1) := by
  change ("-" ++ Nat.repr (n + 1)).toList = _
  simp

/-- Small exponents are read in full. -/
theorem exponentValue_eq {cs : List Char} (h : decimalValue cs < 0x10000) :
    exponentValue cs = decimalValue cs := by
  rw [decimalValue, valueByPairs_eq] at h ⊢
  rw [exponentValue]
  generalize 0 = n at h ⊢
  induction cs generalizing n with
  | nil => rfl
  | cons c cs ih =>
    have hn : n < 0x10000 := (le_valueFrom (by decide) n _).trans_lt h
    rw [List.foldl_cons, appendExponentDigit, if_pos hn]
    exact ih _ h

theorem splitSign_of_isDigit {c : Char} (h : c.isDigit = true) (cs : List Char) :
    splitSign (c :: cs) = (false, c :: cs) := by
  unfold splitSign
  split
  · next heq =>
    cases heq
    cases h
  · next heq =>
    cases heq
    cases h
  · rfl

theorem readExponent?_toString {e : ℤ} (h : e.natAbs < 0x10000) :
    readExponent? ('e' :: (toString e).toList) = some e := by
  have hall : ∀ n : Nat, (Nat.toDigits 10 n).all Char.isDigit = true := fun n =>
    List.all_eq_true.2 fun c hc => isDigit_toDigits hc
  cases e with
  | ofNat n =>
    have htext : (toString (Int.ofNat n)).toList = Nat.toDigits 10 n := toList_toString_natCast n
    obtain ⟨c, cs, hcs, hdigits⟩ := toDigits_eq_cons n
    have hsplit : splitSign (Nat.toDigits 10 n) = (false, Nat.toDigits 10 n) := by
      rw [hcs, splitSign_of_isDigit (hdigits c (by simp))]
    have hvalue : exponentValue (Nat.toDigits 10 n) = n := by
      rw [exponentValue_eq (by rw [decimalValue_toDigits]; simpa using h), decimalValue_toDigits]
    rw [htext, readExponent?, if_pos (.inl rfl), hsplit]
    simp [hall n, hvalue]
  | negSucc n =>
    have hvalue : exponentValue (Nat.toDigits 10 (n + 1)) = n + 1 := by
      rw [exponentValue_eq (by rw [decimalValue_toDigits]; simpa using h), decimalValue_toDigits]
    rw [toList_toString_negSucc, readExponent?, if_pos (.inl rfl)]
    simp [splitSign, hall (n + 1), hvalue, Int.negSucc_eq]

theorem span_isDigit {ds r : List Char} (hds : ∀ c ∈ ds, c.isDigit = true)
    (hr : ∀ c ∈ r.head?, c.isDigit = false) : (ds ++ r).span Char.isDigit = (ds, r) := by
  rw [List.span_eq_takeWhile_dropWhile, List.takeWhile_append_of_pos hds,
    List.dropWhile_append_of_pos hds]
  cases r with
  | nil => simp
  | cons c r => simp [hr c rfl]

theorem readDecimal?_eq_some {text cs whole rest fraction tail : List Char} {negative : Bool}
    {e : ℤ} (hsign : splitSign text = (negative, cs))
    (hwhole : cs.span Char.isDigit = (whole, rest))
    (hfraction : splitFraction rest = (fraction, tail)) (hne : whole ≠ [])
    (he : readExponent? tail = some e) :
    readDecimal? text =
      some (ofDecimal negative (decimalValue (whole ++ fraction)) (e - fraction.length)) := by
  have hsome : (whole ++ fraction).isEmpty = false := by simp [hne]
  rw [readDecimal?, hsign]
  dsimp only
  rw [hwhole]
  dsimp only
  rw [hfraction]
  dsimp only
  rw [hsome, he]
  rfl

/-- A numeral in scientific notation is read as its digits and its exponent. -/
theorem readDecimal?_scientific {d : Char} {ds : List Char} (hd : d.isDigit = true)
    (hds : ∀ c ∈ ds, c.isDigit = true) {e : ℤ} (he : e.natAbs < 0x10000) :
    readDecimal? ((match ds with
      | [] => [d]
      | ds => d :: '.' :: ds) ++ 'e' :: (toString e).toList) =
      some (ofDecimal false (decimalValue (d :: ds)) (e - ds.length)) := by
  have hexponent := readExponent?_toString he
  have hsingle : ∀ c ∈ [d], c.isDigit = true := by simpa using hd
  cases ds with
  | nil =>
    exact readDecimal?_eq_some (splitSign_of_isDigit hd _) (span_isDigit hsingle (by simp)) rfl
      (by simp) hexponent
  | cons c ds =>
    have hfraction : splitFraction ('.' :: (c :: ds ++ 'e' :: (toString e).toList)) =
        (c :: ds, 'e' :: (toString e).toList) := span_isDigit hds (by simp)
    exact readDecimal?_eq_some (splitSign_of_isDigit hd _)
      (span_isDigit (r := '.' :: (c :: ds ++ 'e' :: (toString e).toList)) hsingle (by simp))
      hfraction (by simp) hexponent

/-- A row of digits is read as the integer that it is, with the sign that is in front of it. -/
theorem readDecimal?_of_splitSign {text : List Char} {negative : Bool} {n : Nat}
    (h : splitSign text = (negative, Nat.toDigits 10 n)) :
    readDecimal? text = some (ofDecimal negative n 0) := by
  have hspan := span_isDigit (r := []) (fun c hc => isDigit_toDigits (n := n) hc) (by simp)
  rw [List.append_nil] at hspan
  have hread := readDecimal?_eq_some h hspan (rfl : splitFraction [] = ([], []))
    Nat.toDigits_ne_nil (rfl : readExponent? [] = some 0)
  rw [List.append_nil, decimalValue_toDigits] at hread
  exact hread

theorem readDecimal?_toDigits (n : Nat) :
    readDecimal? (Nat.toDigits 10 n) = some (ofDecimal false n 0) := by
  obtain ⟨c, cs, hcs, hdigits⟩ := toDigits_eq_cons n
  refine readDecimal?_of_splitSign ?_
  rw [hcs]
  exact splitSign_of_isDigit (hdigits c (by simp)) cs

end Number

/-! ## Decimals -/

namespace Decimal

/-- The rational that a decimal stands for. -/
def value (d : Decimal) : ℚ :=
  d.coefficient * (10 : ℚ) ^ d.exponent

theorem value_dropZeros (fuel : Nat) (d : Decimal) : (d.dropZeros fuel).value = d.value := by
  induction fuel generalizing d with
  | zero => rfl
  | succ fuel ih =>
    rw [dropZeros]
    split
    · next h =>
      rw [ih, value, value]
      have hdiv : ((d.coefficient / 10 : Nat) : ℚ) * 10 = d.coefficient := by
        exact_mod_cast Nat.div_mul_cancel (Nat.dvd_of_mod_eq_zero h.2)
      dsimp only
      rw [zpow_add_one₀ (by norm_num), ← hdiv]
      ring
    · rfl

theorem value_normalize (d : Decimal) : d.normalize.value = d.value :=
  value_dropZeros _ d

end Decimal

namespace Number

theorem nearestRank_of_nearestDecimal? {rank count : Nat} {d : Decimal}
    (h : nearestDecimal? rank count = some d) : nearestRank d.value = rank := by
  unfold nearestDecimal? at h
  dsimp only at h
  split at h
  · next hlow =>
    cases h
    exact of_decide_eq_true hlow.1
  · split at h
    · next hhigh =>
      cases h
      exact of_decide_eq_true hhigh
    · cases h

theorem value_exactDecimal (rank : Nat) : (exactDecimal rank).value = magnitude rank := by
  rw [exactDecimal, magnitude]
  split
  · next h =>
    have hpow : (2 : ℚ) ^ exponent rank = 2 ^ (exponent rank).toNat := by
      rw [← zpow_natCast, Int.toNat_of_nonneg h]
    simp [Decimal.value, hpow]
  · next h =>
    have hneg : exponent rank = -((exponent rank).natAbs : ℤ) := by omega
    rw [Decimal.value]
    dsimp only
    generalize (exponent rank).natAbs = n at hneg
    rw [hneg, zpow_neg, zpow_neg, zpow_natCast, zpow_natCast]
    have hten : (10 : ℚ) ^ n = 5 ^ n * 2 ^ n := by
      rw [← mul_pow]
      norm_num
    rw [hten, Nat.pow_eq]
    push_cast
    field_simp

/-- The shortest digits of a magnitude round to it. -/
theorem nearestRank_shortest {rank : Nat} (h : rank ≠ 0) :
    nearestRank (shortest rank).value = rank := by
  rw [shortest, if_neg h, Decimal.value_normalize]
  cases hfind : (List.range 17).findSome? fun n => nearestDecimal? rank (n + 1) with
  | none =>
    rw [Option.getD_none, value_exactDecimal, nearestRank_magnitude]
  | some d =>
    obtain ⟨n, -, hd⟩ := List.exists_of_findSome?_eq_some hfind
    exact nearestRank_of_nearestDecimal? hd

/-! ## Decimals within reach -/

/-- What rounds to a rank other than zero is neither too small nor too large. -/
theorem reach_of_nearestRank {q : ℚ} (hq : 0 ≤ q) (hpos : nearestRank q ≠ 0)
    (hlt : nearestRank q < rankCount) : (2 : ℚ) ^ (-1075 : ℤ) ≤ q ∧ q < 2 ^ (1024 : ℤ) := by
  constructor
  · by_contra h
    obtain rfl | hq := hq.eq_or_lt
    · exact hpos (by simp [nearestRank])
    · exact hpos (nearestRank_eq_zero hq (not_le.1 h))
  · by_contra h
    exact absurd hlt (rankCount_le_nearestRank (not_lt.1 h)).not_gt

theorem two_pow_lt_ten_pow {n : Nat} (h : n < 1200) : (2 : ℚ) ^ n < 10 ^ 400 :=
  calc (2 : ℚ) ^ n < 2 ^ (3 * 400) := pow_lt_pow_right₀ (by norm_num) h
    _ = 8 ^ 400 := by rw [pow_mul]; norm_num
    _ ≤ 10 ^ 400 := pow_le_pow_left₀ (by norm_num) (by norm_num) 400

theorem zpow_ten_out_of_reach {k : ℤ} (h : 400 ≤ k) : (2 : ℚ) ^ (1024 : ℤ) ≤ 10 ^ k :=
  calc (2 : ℚ) ^ (1024 : ℤ) ≤ 10 ^ (400 : ℤ) := by
        rw [zpow_ofNat, zpow_ofNat]
        exact (two_pow_lt_ten_pow (by norm_num)).le
    _ ≤ 10 ^ k := zpow_le_zpow_right₀ (by norm_num) h

theorem zpow_ten_too_small {k : ℤ} (h : k ≤ -400) : (10 : ℚ) ^ k < 2 ^ (-1075 : ℤ) :=
  calc (10 : ℚ) ^ k ≤ 10 ^ (-400 : ℤ) := zpow_le_zpow_right₀ (by norm_num) h
    _ < 2 ^ (-1075 : ℤ) := by
      rw [zpow_neg, zpow_neg, zpow_ofNat, zpow_ofNat]
      exact inv_strictAnti₀ (by positivity) (two_pow_lt_ten_pow (by norm_num))

/-- Three decimal digits for every ten binary ones are not too many. -/
theorem ten_pow_le_two_pow (n : Nat) : 10 ^ (3 * n / 10) ≤ 2 ^ n := by
  refine (Nat.pow_le_pow_iff_left (n := 10) (by decide)).1 ?_
  calc (10 ^ (3 * n / 10)) ^ 10 = 10 ^ (3 * n / 10 * 10) := (pow_mul ..).symm
    _ ≤ 10 ^ (3 * n) := Nat.pow_le_pow_right (by decide) (Nat.div_mul_le_self _ _)
    _ = 1000 ^ n := by rw [pow_mul]; norm_num
    _ ≤ 1024 ^ n := Nat.pow_le_pow_left (by decide) n
    _ = (2 ^ n) ^ 10 := by rw [← pow_mul, mul_comm, pow_mul]; norm_num

/-- Decimals whose digits and exponent are too large together are beyond all magnitudes. -/
theorem out_of_reach {c : Nat} {e : ℤ} (hc : c ≠ 0) (h : 400 < e + 3 * (c.log2 : ℤ) / 10) :
    (2 : ℚ) ^ (1024 : ℤ) ≤ c * 10 ^ e := by
  obtain ⟨hlog, -⟩ := log2_bounds hc
  have hpow : (10 : ℚ) ^ (3 * (c.log2 : ℤ) / 10) ≤ c := by
    have := ten_pow_le_two_pow c.log2
    calc (10 : ℚ) ^ (3 * (c.log2 : ℤ) / 10) = ((10 ^ (3 * c.log2 / 10) : Nat) : ℚ) := by
          rw [Nat.cast_pow, ← zpow_natCast]
          norm_cast
      _ ≤ ((2 ^ c.log2 : Nat) : ℚ) := by exact_mod_cast this
      _ ≤ c := by
          rw [zpow_natCast] at hlog
          exact_mod_cast hlog
  calc (2 : ℚ) ^ (1024 : ℤ) ≤ 10 ^ (3 * (c.log2 : ℤ) / 10 + e) := zpow_ten_out_of_reach (by omega)
    _ = 10 ^ (3 * (c.log2 : ℤ) / 10) * 10 ^ e := zpow_add₀ (by norm_num) _ _
    _ ≤ c * 10 ^ e := by gcongr

/-- Decimals whose digits and exponent are too small together are nearest to zero. -/
theorem too_small {c : Nat} {e : ℤ} (hc : c ≠ 0) (h : e + c.log2 < -400) :
    (c : ℚ) * 10 ^ e < 2 ^ (-1075 : ℤ) := by
  obtain ⟨-, hlog⟩ := log2_bounds hc
  have hpos : (0 : ℚ) < 10 ^ e := zpow_pos (by norm_num) e
  have hpow : (2 : ℚ) ^ ((c.log2 : ℤ) + 1) ≤ 10 ^ ((c.log2 : ℤ) + 1) := by
    rw [← Nat.cast_succ, zpow_natCast, zpow_natCast]
    gcongr
    norm_num
  calc (c : ℚ) * 10 ^ e < 10 ^ ((c.log2 : ℤ) + 1) * 10 ^ e := by
        have := hlog.trans_le hpow
        gcongr
    _ = 10 ^ ((c.log2 : ℤ) + 1 + e) := (zpow_add₀ (by norm_num) _ _).symm
    _ < 2 ^ (-1075 : ℤ) := zpow_ten_too_small (by omega)

/-- A positive rational and its opposite are rounded to the same rank. -/
theorem ofRat_of_pos {q : ℚ} (hq : 0 < q) (zeroIsNegative negative : Bool) :
    ofRat zeroIsNegative (if negative then -q else q) = ofRank negative (nearestRank q) := by
  cases negative with
  | false => rw [if_neg (by simp), ofRat, if_neg hq.ne', if_neg hq.not_gt]
  | true =>
    have hneg : -q < 0 := neg_neg_of_pos hq
    rw [if_pos rfl, ofRat, if_neg hneg.ne, if_pos hneg, neg_neg]

/-- A decimal is read as the number nearest to it: the exponents that are settled without computing
a power are settled as they would be with it. -/
theorem ofDecimal_eq_ofRat (negative : Bool) (c : Nat) (e : ℤ) :
    ofDecimal negative c e =
      ofRat negative (if negative then -((c : ℚ) * 10 ^ e) else c * 10 ^ e) := by
  unfold ofDecimal
  split
  · next hc => simp [hc, ofRat]
  next hc =>
  have hpos : (0 : ℚ) < c * 10 ^ e := by
    have : (0 : ℚ) < c := by exact_mod_cast Nat.pos_of_ne_zero hc
    positivity
  split
  · next h =>
    rw [ofRat_of_pos hpos, ofRank, dif_neg (rankCount_le_nearestRank (out_of_reach hc h)).not_gt]
  split
  · next h =>
    rw [ofRat_of_pos hpos, nearestRank_eq_zero hpos (too_small hc h)]
    rfl
  · rfl

theorem coefficient_ne_zero {d : Decimal} (hlow : (2 : ℚ) ^ (-1075 : ℤ) ≤ d.value) :
    d.coefficient ≠ 0 := by
  intro hc
  rw [Decimal.value, hc, Nat.cast_zero, zero_mul] at hlow
  exact absurd (zpow_pos (by norm_num) _) hlow.not_gt

/-- A decimal that rounds to a rank is read as the number of that rank. -/
theorem ofDecimal_eq_finite {d : Decimal} {rank : Fin rankCount} (h : nearestRank d.value = rank)
    (hrank : rank.val ≠ 0) :
    ofDecimal false d.coefficient d.exponent = .finite false rank := by
  have hvalue : 0 ≤ d.value := by
    rw [Decimal.value]
    positivity
  have hpos : 0 < d.value := by
    refine hvalue.lt_of_ne fun hzero => hrank ?_
    rw [← h, ← hzero, nearestRank, if_pos rfl]
  rw [ofDecimal_eq_ofRat]
  change ofRat false (if false then -d.value else d.value) = _
  rw [ofRat_of_pos hpos, ofRank, dif_pos (h ▸ rank.isLt)]
  congr 1
  exact Fin.ext h

/-- The leading exponent of a decimal within reach has few digits. -/
theorem natAbs_leadingExponent_lt {d : Decimal} (hlow : (2 : ℚ) ^ (-1075 : ℤ) ≤ d.value)
    (hhigh : d.value < 2 ^ (1024 : ℤ)) : d.leadingExponent.natAbs < 0x10000 := by
  have hlength : 0 < d.digits.length := Nat.length_toDigits_pos
  have hc := coefficient_ne_zero hlow
  have hpos : (0 : ℚ) < 10 ^ d.exponent := zpow_pos (by norm_num) _
  have hlead : d.leadingExponent = ((d.digits.length - 1 : Nat) : ℤ) + d.exponent := by
    rw [Decimal.leadingExponent]
    omega
  obtain ⟨hfrom, hto⟩ : 10 ^ (d.digits.length - 1) ≤ d.coefficient ∧
      d.coefficient < 10 ^ d.digits.length := toDigits_bounds hc
  have hlower : d.leadingExponent < 400 := by
    by_contra hge
    have hbig : (2 : ℚ) ^ (1024 : ℤ) ≤ d.value :=
      calc (2 : ℚ) ^ (1024 : ℤ) ≤ 10 ^ d.leadingExponent := zpow_ten_out_of_reach (not_lt.1 hge)
        _ = ((10 ^ (d.digits.length - 1) : Nat) : ℚ) * 10 ^ d.exponent := by
            rw [hlead, zpow_add₀ (by norm_num), zpow_natCast, Nat.cast_pow]
            norm_num
        _ ≤ d.value := by
            rw [Decimal.value]
            gcongr
    exact absurd hhigh hbig.not_gt
  have hupper : -402 < d.leadingExponent := by
    by_contra hle
    have hsmall : d.value < 2 ^ (-1075 : ℤ) :=
      calc d.value < ((10 ^ d.digits.length : Nat) : ℚ) * 10 ^ d.exponent := by
            rw [Decimal.value]
            gcongr
        _ = 10 ^ (d.leadingExponent + 1) := by
            rw [hlead, Nat.cast_pow, ← zpow_natCast]
            push_cast
            rw [← zpow_add₀ (by norm_num)]
            congr 1
            omega
        _ < 2 ^ (-1075 : ℤ) := zpow_ten_too_small (by omega)
    exact absurd hlow hsmall.not_ge
  omega

/-! ## Literals -/

/-- The numbers that a literal can stand for: those of positive sign. -/
def IsLiteral (x : Number) : Prop :=
  x = .infinite false ∨ ∃ rank, x = .finite false rank

theorem isLiteral_ofRank (rank : Nat) : IsLiteral (ofRank false rank) := by
  unfold ofRank
  split
  · exact .inr ⟨_, rfl⟩
  · exact .inl rfl

theorem isLiteral_ofRat {q : ℚ} (h : 0 ≤ q) : IsLiteral (ofRat false q) := by
  rw [ofRat]
  split
  · exact .inr ⟨_, rfl⟩
  · rw [if_neg h.not_gt]
    exact isLiteral_ofRank _

theorem isLiteral_ofDecimal (digits : Nat) (e : ℤ) : IsLiteral (ofDecimal false digits e) := by
  unfold ofDecimal
  split
  · exact .inr ⟨_, rfl⟩
  split
  · exact .inl rfl
  split
  · exact .inr ⟨_, rfl⟩
  · refine isLiteral_ofRat ?_
    simp only [Bool.false_eq_true, if_false]
    positivity

theorem magnitude_nonneg (rank : Nat) : 0 ≤ magnitude rank := by
  rw [magnitude]
  positivity

theorem IsLiteral.add {x y : Number} (hx : IsLiteral x) (hy : IsLiteral y) : IsLiteral (x + y) := by
  obtain rfl | ⟨r, rfl⟩ := hx <;> obtain rfl | ⟨t, rfl⟩ := hy
  · exact .inl rfl
  · exact .inl rfl
  · exact .inl rfl
  · exact isLiteral_ofRat (add_nonneg (magnitude_nonneg r) (magnitude_nonneg t))

/-- The base of hexadecimal numerals is not zero, so an infinity stays one when it is multiplied. -/
theorem ofNat_sixteen : ∃ rank : Fin rankCount, ofNat 16 = .finite false rank ∧ rank.val ≠ 0 := by
  have hrank : nearestRank 16 = 1027 * binade := by
    have hmul := nearestRank_mul_zpow (m := 2 ^ 52) (e := -48) (by decide) (by decide)
    have hvalue : ((2 ^ 52 : Nat) : ℚ) * 2 ^ (-48 : ℤ) = 16 := by norm_num
    rw [hvalue] at hmul
    rw [hmul]
    decide
  refine ⟨⟨1027 * binade, by decide⟩, ?_, by decide⟩
  change ofRat false ((16 : Nat) : ℚ) = _
  rw [Nat.cast_ofNat, ofRat, if_neg (by norm_num), if_neg (by norm_num), hrank, ofRank,
    dif_pos (by decide)]

theorem IsLiteral.mul_sixteen {x : Number} (hx : IsLiteral x) : IsLiteral (x * ofNat 16) := by
  obtain ⟨base, hbase, hne⟩ := ofNat_sixteen
  rw [hbase]
  obtain rfl | ⟨r, rfl⟩ := hx
  · refine .inl ?_
    change (if base.val = 0 then nan else infinite (false != false)) = _
    rw [if_neg hne]
    rfl
  · exact isLiteral_ofRat (mul_nonneg (magnitude_nonneg r) (magnitude_nonneg base))

theorem isLiteral_readDigits? {cs : List Char} {x : Number} (h : readDigits? 16 cs = some x) :
    IsLiteral x := by
  have hfold : ∀ (cs : List Char) (y : Number), IsLiteral y →
      cs.foldlM (appendDigit 16) y = some x → IsLiteral x := by
    intro cs
    induction cs with
    | nil =>
      intro y hy h
      cases h
      exact hy
    | cons c cs ih =>
      intro y hy h
      rw [List.foldlM_cons] at h
      obtain ⟨z, hz, h⟩ := Option.bind_eq_some_iff.1 h
      obtain ⟨d, -, rfl⟩ := Option.map_eq_some_iff.1 hz
      exact ih _ (hy.mul_sixteen.add (isLiteral_ofRat (Nat.cast_nonneg d))) h
  unfold readDigits? at h
  split at h
  · cases h
  · exact hfold cs _ (.inr ⟨_, rfl⟩) h

theorem splitSign_of_start {c : Char} (h : c.isDigit = true ∨ c = '.') (cs : List Char) :
    splitSign (c :: cs) = (false, c :: cs) := by
  obtain h | rfl := h
  · exact splitSign_of_isDigit h cs
  · rfl

/-- A numeral without a sign is not negative. -/
theorem isLiteral_readDecimal? {c : Char} {cs : List Char} (hc : c.isDigit = true ∨ c = '.')
    {x : Number} (h : readDecimal? (c :: cs) = some x) : IsLiteral x := by
  rw [readDecimal?, splitSign_of_start hc] at h
  dsimp only at h
  split at h
  · cases h
  · split at h
    · cases h
      exact isLiteral_ofDecimal _ _
    · cases h

theorem readWord?_eq_some {cs : List Char} {i : ℤ} (h : readWord? cs = some i) :
    ∃ negative digits, splitSign cs = (negative, digits) ∧ digits ≠ [] ∧
      (∀ d ∈ digits, d.isDigit = true) ∧
      i = if negative then -(decimalValue digits : ℤ) else decimalValue digits := by
  rw [readWord?] at h
  obtain ⟨⟨negative, digits⟩, hsplit⟩ : ∃ r, splitSign cs = r := ⟨_, rfl⟩
  rw [hsplit] at h
  dsimp only at h
  split at h
  · cases h
  · next hdigits =>
    obtain ⟨-, h⟩ := Option.ite_none_right_eq_some.1 h
    obtain ⟨hne, hall⟩ : digits ≠ [] ∧ ∀ d ∈ digits, d.isDigit = true := by simpa using hdigits
    exact ⟨negative, digits, hsplit, hne, hall, (Option.some.inj h).symm⟩

/-- An exponent that fits a word can be read. -/
theorem exists_readExponent?_eq_some {c : Char} (hc : c = 'e' ∨ c = 'E') {cs : List Char} {i : ℤ}
    (h : readWord? cs = some i) : ∃ e, readExponent? (c :: cs) = some e := by
  obtain ⟨negative, digits, hsplit, hne, hdigits, -⟩ := readWord?_eq_some h
  rw [readExponent?, if_pos hc, hsplit]
  have hall : digits.all Char.isDigit = true := List.all_eq_true.2 hdigits
  simp [hall, hne]

theorem stripHexMark_of_isDigit {ds r : List Char} (hds : ∀ d ∈ ds, d.isDigit = true)
    (hne : ds ≠ []) (hr : ∀ c ∈ r.head?, c ≠ 'x' ∧ c ≠ 'X') : stripHexMark (ds ++ r) = none := by
  unfold stripHexMark
  split
  · next heq =>
    match ds, hne with
    | [_], _ =>
      cases heq
      exact absurd rfl (hr _ rfl).1
    | _ :: _ :: _, _ =>
      cases heq
      exact absurd (hds 'x' (by simp)) (by decide)
  · next heq =>
    match ds, hne with
    | [_], _ =>
      cases heq
      exact absurd rfl (hr _ rfl).2
    | _ :: _ :: _, _ =>
      cases heq
      exact absurd (hds 'X' (by simp)) (by decide)
  · rfl

/-- What can overflow is a decimal numeral, too: an integer and an exponent. -/
theorem readOverflow?_eq_some {c : Char} {cs : List Char} (hc : c.isDigit = true ∨ c = '.')
    {x : Number} (h : readOverflow? (c :: cs) = some x) :
    stripHexMark (c :: cs) = none ∧ ∃ m e, readDecimal? (c :: cs) = some (ofDecimal false m e) ∧
      x = .infinite (decide (m = 0)) := by
  rw [readOverflow?, List.span_eq_takeWhile_dropWhile] at h
  dsimp only at h
  have hcs := List.takeWhile_append_dropWhile (p := fun c => c != 'e' && c != 'E') (l := c :: cs)
  have hrest := List.head?_dropWhile_not (fun c => c != 'e' && c != 'E') (c :: cs)
  generalize hm : (c :: cs).takeWhile (fun c => c != 'e' && c != 'E') = mantissa at h hcs
  generalize (c :: cs).dropWhile (fun c => c != 'e' && c != 'E') = rest at h hcs hrest
  match rest, h, hrest with
  | [], h, _ => cases h
  | e :: rest, h, hrest =>
    have he : e = 'e' ∨ e = 'E' := by simpa [or_iff_not_imp_left] using hrest
    dsimp only at h
    split at h
    · next m k hmantissa hexponent =>
      cases h
      obtain ⟨negative, digits, hsplit, hne, hdigits, rfl⟩ := readWord?_eq_some hmantissa
      have hstart : ∃ ms, mantissa = c :: ms := by
        have : c ≠ 'e' ∧ c ≠ 'E' := by
          obtain hc | rfl := hc
          · constructor <;> rintro rfl <;> cases hc
          · decide
        rw [List.takeWhile_cons, if_pos (by simpa using this)] at hm
        exact ⟨_, hm.symm⟩
      obtain ⟨ms, rfl⟩ := hstart
      rw [splitSign_of_start hc] at hsplit
      cases hsplit
      obtain ⟨k, hk⟩ := exists_readExponent?_eq_some he hexponent
      have hhead : ∀ d ∈ (e :: rest).head?, d.isDigit = false ∧ d ≠ 'x' ∧ d ≠ 'X' := by
        intro d hd
        cases hd
        obtain rfl | rfl := he <;> decide
      have hspan := span_isDigit hdigits fun d hd => (hhead d hd).1
      have hfraction : splitFraction (e :: rest) = ([], e :: rest) := by
        obtain rfl | rfl := he <;> rfl
      have hsign : splitSign ((c :: ms) ++ e :: rest) = (false, (c :: ms) ++ e :: rest) :=
        splitSign_of_start hc _
      have hread := readDecimal?_eq_some hsign hspan hfraction hne hk
      rw [← hcs]
      refine ⟨stripHexMark_of_isDigit hdigits hne fun d hd => (hhead d hd).2, _, _, hread, ?_⟩
      simp
    · cases h

/-- The mantissa of a numeral that overflows is positive: one of zeros only would have been read as
zero. -/
theorem readOverflow?_eq_infinite {c : Char} {cs : List Char} (hc : c.isDigit = true ∨ c = '.')
    {x : Number} (h : readOverflow? (c :: cs) = some x)
    (hdirect : (readDecimal? (c :: cs)).filter isFinite = none) :
    x = .infinite false ∧ readDecimal? (c :: cs) = some (.infinite false) := by
  obtain ⟨-, m, e, hread, rfl⟩ := readOverflow?_eq_some hc h
  have hinfinite : ofDecimal false m e = .infinite false := by
    refine (isLiteral_ofDecimal m e).resolve_right ?_
    rintro ⟨rank, hfinite⟩
    rw [hread, hfinite] at hdirect
    cases hdirect
  have hm : m ≠ 0 := by
    rintro rfl
    cases hinfinite
  exact ⟨by simp [hm], hinfinite ▸ hread⟩

/-- The number that a literal stands for is read from its digits, or it is too large. -/
theorem ofLiteral?_cases {text : String} {c : Char} {cs : List Char}
    (htext : text.toList = c :: cs) (hc : c.isDigit = true ∨ c = '.') {x : Number}
    (h : ofLiteral? text = some x) :
    (∃ digits, stripHexMark (c :: cs) = some digits ∧ readDigits? 16 digits = some x) ∨
      stripHexMark (c :: cs) = none ∧ readDecimal? (c :: cs) = some x := by
  rw [ofLiteral?, htext] at h
  cases hmark : stripHexMark (c :: cs) with
  | some digits =>
    rw [hmark] at h
    dsimp only at h
    cases hread : readDigits? 16 digits with
    | some y =>
      rw [hread] at h
      cases h
      exact .inl ⟨digits, rfl, hread⟩
    | none =>
      rw [hread] at h
      have hnone := (readOverflow?_eq_some hc h).1
      rw [hmark] at hnone
      cases hnone
  | none =>
    rw [hmark] at h
    dsimp only at h
    refine .inr ⟨rfl, ?_⟩
    cases hread : (readDecimal? (c :: cs)).filter isFinite with
    | some y =>
      rw [hread] at h
      cases h
      exact (Option.filter_eq_some_iff.1 hread).1
    | none =>
      rw [hread] at h
      obtain ⟨rfl, hinfinite⟩ := readOverflow?_eq_infinite hc h hread
      exact hinfinite

/-- A literal that does not start with a sign stands for a number of positive sign. -/
theorem isLiteral_of_ofLiteral? {text : String} {c : Char} {cs : List Char}
    (htext : text.toList = c :: cs) (hc : c.isDigit = true ∨ c = '.') {x : Number}
    (h : ofLiteral? text = some x) : IsLiteral x := by
  obtain ⟨digits, -, hread⟩ | ⟨-, hread⟩ := ofLiteral?_cases htext hc h
  · exact isLiteral_readDigits? hread
  · exact isLiteral_readDecimal? hc hread

/-! ## Printed literals -/

theorem ofLiteral?_of_readDecimal? {text : String} {ds r : List Char}
    (htext : text.toList = ds ++ r) (hds : ∀ d ∈ ds, d.isDigit = true) (hne : ds ≠ [])
    (hr : ∀ c ∈ r.head?, c ≠ 'x' ∧ c ≠ 'X') {rank : Fin rankCount}
    (h : readDecimal? (ds ++ r) = some (.finite false rank)) :
    ofLiteral? text = some (.finite false rank) := by
  rw [ofLiteral?, htext, stripHexMark_of_isDigit hds hne hr, h]
  rfl

theorem magnitude_zero : magnitude 0 = 0 := by decide +kernel

theorem toInt?_finite (rank : Fin rankCount) {i : ℤ} (h : toInt? (.finite false rank) = some i) :
    magnitude rank = i := by
  rw [toInt?, toRat?] at h
  dsimp only at h
  split at h
  · next hden =>
    cases h
    exact (Rat.coe_int_num_of_den_eq_one hden).symm
  · cases h

/-- Digits alone are read back. -/
theorem ofLiteral?_toString {rank : Fin rankCount} {i : ℤ}
    (h : toInt? (.finite false rank) = some i) :
    ofLiteral? (toString i) = some (.finite false rank) := by
  have hvalue := toInt?_finite rank h
  obtain ⟨n, rfl⟩ : ∃ n : Nat, i = n :=
    Int.eq_ofNat_of_zero_le (by exact_mod_cast hvalue ▸ magnitude_nonneg rank)
  refine ofLiteral?_of_readDecimal? (r := []) (by rw [toList_toString_natCast, List.append_nil])
    (fun d hd => isDigit_toDigits hd) Nat.toDigits_ne_nil (by simp) ?_
  rw [List.append_nil, readDecimal?_toDigits]
  congr 1
  have hrank : nearestRank ((⟨n, 0⟩ : Decimal).value) = rank := by
    have hn : (⟨n, 0⟩ : Decimal).value = magnitude rank := by
      rw [hvalue]
      simp [Decimal.value]
    rw [hn]
    exact nearestRank_magnitude rank
  by_cases hzero : rank.val = 0
  · have hn : n = 0 := by
      rw [hzero, magnitude_zero] at hvalue
      exact_mod_cast hvalue.symm
    rw [hn, ofDecimal, if_pos rfl, zero]
    congr 1
    exact Fin.ext hzero.symm
  · exact ofDecimal_eq_finite (d := ⟨n, 0⟩) hrank hzero

/-- Scientific notation is read back. -/
theorem ofLiteral?_toScientific {rank : Fin rankCount} (h : rank.val ≠ 0) :
    ofLiteral? (shortest rank).toScientific = some (.finite false rank) := by
  have hrank := nearestRank_shortest h
  generalize shortest rank = s at hrank ⊢
  have hvalue : 0 ≤ s.value := by
    rw [Decimal.value]
    positivity
  obtain ⟨hlow, hhigh⟩ := reach_of_nearestRank hvalue (hrank ▸ h) (hrank ▸ rank.isLt)
  have hexponent := natAbs_leadingExponent_lt hlow hhigh
  obtain ⟨d, ds, hdigits, hall⟩ : ∃ d ds, s.digits = d :: ds ∧ ∀ c ∈ d :: ds, c.isDigit = true :=
    toDigits_eq_cons s.coefficient
  have hread := readDecimal?_scientific (hall d (by simp))
    (fun c hc => hall c (List.mem_cons_of_mem d hc)) hexponent
  have hcoefficient : decimalValue (d :: ds) = s.coefficient := by
    rw [← hdigits, Decimal.digits, decimalValue_toDigits]
  have hplaces : s.leadingExponent - ds.length = s.exponent := by
    rw [Decimal.leadingExponent, hdigits, List.length_cons]
    push_cast
    ring
  rw [hcoefficient, hplaces, ofDecimal_eq_finite hrank h] at hread
  have hsingle : ∀ c ∈ [d], c.isDigit = true := by simpa using hall d (by simp)
  cases ds with
  | nil =>
    refine ofLiteral?_of_readDecimal? ?_ hsingle (by simp) ?_ hread
    · simp [Decimal.toScientific, hdigits]
    · simp
  | cons c ds =>
    refine ofLiteral?_of_readDecimal? ?_ hsingle (by simp) ?_ hread
    · simp [Decimal.toScientific, hdigits]
    · simp

/-- The literal of a number stands for it. -/
theorem ofLiteral?_numberLiteral {x : Number} (h : IsLiteral x) :
    ofLiteral? (numberLiteral x) = some x := by
  obtain rfl | ⟨rank, rfl⟩ := h
  · cbv
  · have hscientific : rank.val ≠ 0 →
        ofLiteral? (toScientific (.finite false rank)) = some (.finite false rank) :=
      ofLiteral?_toScientific
    rw [numberLiteral]
    split
    · next i hi =>
      split
      · exact ofLiteral?_toString hi
      · next hlarge =>
        refine hscientific fun hzero => hlarge ?_
        have hvalue := toInt?_finite rank hi
        rw [hzero, magnitude_zero] at hvalue
        have : i = 0 := by exact_mod_cast hvalue.symm
        rw [this]
        decide
    · next hi =>
      refine hscientific fun hzero => ?_
      obtain rfl : rank = ⟨0, by decide⟩ := Fin.ext hzero
      exact absurd hi (by decide +kernel)

end Number

end LuaLang
