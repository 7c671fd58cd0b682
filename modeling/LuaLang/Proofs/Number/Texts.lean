import Mathlib
import LuaLang.Proofs.Number.Integers

/-!
# Numbers and their texts

The same digits are worth the same, whether they are read as a literal of the source, as a string,
or one by one in a base. Integers that the language shows without an exponent are shown as they are
written in decimal, and are read back from that.

## Main definitions

* `Number.StandsFor`: the characters that stand for a digit.

## Main statements

* `Number.ofText?_of_ofLiteral?`, `Number.ofLiteral?_of_ofText?`: literals are strings that are
  numbers, and the other way round unless they are too large.
* `Number.toText_ofInt`: the texts of integers.
* `Number.readDigits?_eq_ofNat`: the value of digits of a base.
* `Number.integers_read_back`: integers are written and read exactly.
-/

namespace LuaLang.Number

/-! ## Strings without blanks -/

theorem trimBoth_of_not {p : Char → Bool} {cs : List Char} (h : ∀ c ∈ cs, p c = false) :
    trimBoth p cs = cs := by
  have hdrop : ∀ {cs : List Char}, (∀ c ∈ cs, p c = false) → cs.dropWhile p = cs := by
    intro cs h
    cases cs with
    | nil => rfl
    | cons c cs => rw [List.dropWhile_cons_of_neg (by simp [h c])]
  rw [trimBoth, hdrop h, hdrop (by simpa using h), List.reverse_reverse]

theorem isBlank_of_isNumeralChar {c : Char} (h : isNumeralChar c = true) : isBlank c = false :=
  isBlank_eq_false h (by decide)

theorem isNumeralChar_of_isDigit {c : Char} (h : c.isDigit = true) : isNumeralChar c = true := by
  simp [isNumeralChar, h]

theorem isNumeralChar_of_splitSign {cs rest : List Char} {negative : Bool}
    (h : splitSign cs = (negative, rest)) (hrest : ∀ c ∈ rest, isNumeralChar c = true) :
    ∀ c ∈ cs, isNumeralChar c = true := by
  have hminus : isNumeralChar '-' = true := by decide
  have hplus : isNumeralChar '+' = true := by decide
  unfold splitSign at h
  split at h <;> cases h
  · exact List.forall_mem_cons.2 ⟨hminus, hrest⟩
  · exact List.forall_mem_cons.2 ⟨hplus, hrest⟩
  · exact hrest

theorem isNumeralChar_of_readExponent? {cs : List Char} {e : ℤ} (h : readExponent? cs = some e) :
    ∀ c ∈ cs, isNumeralChar c = true := by
  cases cs with
  | nil => simp
  | cons c cs =>
    rw [readExponent?] at h
    obtain ⟨hc, h⟩ := Option.ite_none_right_eq_some.1 h
    obtain ⟨⟨negative, digits⟩, hsplit⟩ : ∃ r, splitSign cs = r := ⟨_, rfl⟩
    rw [hsplit] at h
    dsimp only at h
    obtain ⟨hdigits, -⟩ := Option.ite_none_left_eq_some.1 h
    obtain ⟨-, hall⟩ : digits ≠ [] ∧ ∀ d ∈ digits, d.isDigit = true := by simpa using hdigits
    have hletter : isNumeralChar c = true := by
      rcases hc with rfl | rfl <;> decide
    have hrest := isNumeralChar_of_splitSign hsplit fun d hd => isNumeralChar_of_isDigit (hall d hd)
    exact List.forall_mem_cons.2 ⟨hletter, hrest⟩

theorem isNumeralChar_of_dropWhile {cs : List Char}
    (hrest : ∀ c ∈ cs.dropWhile Char.isDigit, isNumeralChar c = true) :
    ∀ c ∈ cs, isNumeralChar c = true := by
  intro c hc
  rw [← List.takeWhile_append_dropWhile (p := Char.isDigit) (l := cs), List.mem_append] at hc
  rcases hc with hc | hc
  · exact isNumeralChar_of_isDigit (List.mem_takeWhile_imp hc)
  · exact hrest c hc

theorem isNumeralChar_of_splitFraction {cs : List Char}
    (hrest : ∀ c ∈ (splitFraction cs).2, isNumeralChar c = true) :
    ∀ c ∈ cs, isNumeralChar c = true := by
  unfold splitFraction at hrest
  split at hrest
  · rw [List.span_eq_takeWhile_dropWhile] at hrest
    exact List.forall_mem_cons.2 ⟨by decide, isNumeralChar_of_dropWhile hrest⟩
  · exact hrest

/-- A decimal numeral consists of the characters that numerals are made of. -/
theorem isNumeralChar_of_readDecimal? {cs : List Char} {x : Number} (h : readDecimal? cs = some x) :
    ∀ c ∈ cs, isNumeralChar c = true := by
  obtain ⟨⟨negative, rest⟩, hsplit⟩ : ∃ r, splitSign cs = r := ⟨_, rfl⟩
  rw [readDecimal?, hsplit] at h
  dsimp only at h
  rw [List.span_eq_takeWhile_dropWhile] at h
  dsimp only at h
  obtain ⟨-, h⟩ := Option.ite_none_left_eq_some.1 h
  split at h
  · next e he =>
    -- From the exponent back to the sign.
    apply isNumeralChar_of_splitSign hsplit
    apply isNumeralChar_of_dropWhile
    apply isNumeralChar_of_splitFraction
    exact isNumeralChar_of_readExponent? he
  · cases h

/-! ## Literals and strings -/

section Literals

variable {text : String} {c : Char} {cs : List Char} {x : Number}

/-- Reading a string as a decimal numeral needs no look at its characters before. -/
theorem readDecimal?_of_all (cs : List Char) :
    (if cs.all isNumeralChar then readDecimal? cs else none) = readDecimal? cs := by
  split
  · rfl
  · next hall =>
    cases hread : readDecimal? cs with
    | none => rfl
    | some x => exact absurd (List.all_eq_true.2 (isNumeralChar_of_readDecimal? hread)) hall

/-- A string without blanks and without a sign is worth what its digits are. -/
theorem ofText?_eq (htext : text.toList = c :: cs) (hc : c.isDigit = true ∨ c = '.')
    (hblank : ∀ d ∈ c :: cs, isBlank d = false) :
    ofText? text = match stripHexMark (c :: cs) with
      | some digits => readDigits? 16 digits
      | none => readDecimal? (c :: cs) := by
  have hsign : c ≠ '-' := by
    rintro rfl
    rcases hc with hc | hc <;> cases hc
  rw [ofText?, htext, ofChars?, trimBoth_of_not hblank, readDecimal?_of_all]
  dsimp only
  -- No sign is split off.
  split
  · next hmark => split at hmark <;> simp_all
  · next hmark => split at hmark <;> simp_all

/-- What a literal stands for, the same text as a string is worth, infinities included. -/
theorem ofText?_of_ofLiteral? (htext : text.toList = c :: cs) (hc : c.isDigit = true ∨ c = '.')
    (hblank : ∀ d ∈ c :: cs, isBlank d = false) (h : ofLiteral? text = some x) :
    ofText? text = some x := by
  rw [ofText?_eq htext hc hblank]
  rcases ofLiteral?_cases htext hc h with ⟨digits, hmark, hread⟩ | ⟨hmark, hread⟩
  · rw [hmark]
    exact hread
  · rw [hmark]
    exact hread

/-- What a string is worth, the same text stands for as a literal, unless it is infinite. -/
theorem ofLiteral?_of_ofText? (htext : text.toList = c :: cs) (hc : c.isDigit = true ∨ c = '.')
    (hblank : ∀ d ∈ c :: cs, isBlank d = false) (h : ofText? text = some x)
    (hx : x.isFinite = true) : ofLiteral? text = some x := by
  rw [ofText?_eq htext hc hblank] at h
  rw [ofLiteral?, htext]
  cases hmark : stripHexMark (c :: cs) with
  | some digits =>
    rw [hmark] at h
    dsimp only at h ⊢
    rw [h]
    rfl
  | none =>
    rw [hmark] at h
    dsimp only at h ⊢
    rw [h, Option.filter_some_pos hx]
    rfl

end Literals

/-! ## Writing integers -/

theorem toDigits_mul_pow {n : Nat} (hn : n ≠ 0) (k : Nat) :
    Nat.toDigits 10 (n * 10 ^ k) = Nat.toDigits 10 n ++ List.replicate k '0' := by
  induction k with
  | zero => simp
  | succ k ih =>
    have hpos : 0 < n * 10 ^ k := by positivity
    have hstep := Nat.toDigits_append_toDigits (b := 10) (d := 0) (by decide) hpos (by decide)
    rw [Nat.add_zero, ih] at hstep
    rw [pow_succ', Nat.mul_left_comm, ← hstep, List.append_assoc, List.replicate_succ']
    rfl

/-- A natural number with decimal places is its digits and zeros. -/
theorem toFixed_natCast (n places : Nat) :
    toFixed places n =
      Nat.toDigits 10 n ++ if places = 0 then [] else '.' :: List.replicate places '0' := by
  have hround : roundRat ((n : ℚ) * 10 ^ places) = n * 10 ^ places := by
    rw [← roundRat_natCast (n * 10 ^ places)]
    push_cast
    rfl
  have hdigits : padLeft (places + 1) (Nat.toDigits 10 (n * 10 ^ places)) =
      Nat.toDigits 10 n ++ List.replicate places '0' := by
    by_cases hn : n = 0
    · have hzero : Nat.toDigits 10 0 = ['0'] := rfl
      rw [hn, Nat.zero_mul, hzero, padLeft, List.length_singleton, Nat.add_sub_cancel,
        ← List.replicate_succ', List.replicate_succ, List.singleton_append]
    · have hlength : 0 < (Nat.toDigits 10 n).length := Nat.length_toDigits_pos
      rw [toDigits_mul_pow hn, padLeft, Nat.sub_eq_zero_of_le, List.replicate_zero, List.nil_append]
      rw [List.length_append, List.length_replicate]
      omega
  rw [toFixed, hround, hdigits, List.length_append, List.length_replicate, Nat.add_sub_cancel,
    List.take_left, List.drop_left]
  split
  · next hplaces => rw [hplaces, List.replicate_zero]
  · rfl

/-- Of digits and zeros behind a point, the digits are left. -/
theorem trimFraction_digits {ds : List Char} (hds : ∀ d ∈ ds, d.isDigit = true) (places : Nat) :
    trimFraction (ds ++ if places = 0 then [] else '.' :: List.replicate places '0') = ds := by
  have hpoint : '.' ∉ ds := fun hmem => absurd (hds '.' hmem) (by decide)
  split
  · rw [List.append_nil, trimFraction, if_neg (by simpa using hpoint)]
  · have hzeros : ∀ c ∈ List.replicate places '0', (decide (c = '0')) = true := by simp
    have hlast : ds.reverse.dropWhile (· = '.') = ds.reverse := by
      cases hreverse : ds.reverse with
      | nil => rfl
      | cons d rest =>
        have hd : d ≠ '.' := by
          rintro rfl
          exact hpoint (by rw [← List.mem_reverse, hreverse]; simp)
        rw [List.dropWhile_cons_of_neg (by simpa using hd)]
    rw [trimFraction, if_pos (by simp)]
    dsimp only
    rw [List.reverse_append, List.reverse_cons, List.reverse_replicate, List.append_assoc,
      List.dropWhile_append_of_pos hzeros, List.singleton_append,
      List.dropWhile_cons_of_neg (by decide), List.dropWhile_cons_of_pos (by decide), hlast,
      List.reverse_reverse]

/-- The logarithm of a natural number is one less than its number of digits. -/
theorem floorLog10_natCast {n : Nat} (hn : n ≠ 0) :
    floorLog10 n = ((Nat.toDigits 10 n).length - 1 : Nat) := by
  have hlength : 0 < (Nat.toDigits 10 n).length := Nat.length_toDigits_pos
  have hone : (Nat.toDigits 10 1).length = 1 := rfl
  have hplace : ((Nat.toDigits 10 n).length : ℤ) - (1 : Nat) =
      ((Nat.toDigits 10 n).length - 1 : Nat) := by omega
  have hpow : (10 : ℚ) ^ (((Nat.toDigits 10 n).length - 1 : Nat) : ℤ) ≤ n := by
    rw [zpow_natCast]
    exact_mod_cast (toDigits_bounds hn).1
  rw [floorLog10, Rat.num_natCast, Rat.den_natCast, Int.natAbs_natCast, hone, hplace]
  exact if_pos hpow

/-- The power of ten of the last significant digit that is shown. -/
theorem exponent_rounded {n : Nat} (h : n < 10 ^ 14) :
    (rounded shownDigits n).exponent = (Nat.toDigits 10 n).length - 14 := by
  by_cases hn : n = 0
  · rw [hn, rounded, if_pos Nat.cast_zero]
    rfl
  have hlength : 0 < (Nat.toDigits 10 n).length := Nat.length_toDigits_pos
  obtain ⟨places, hplaces⟩ : ∃ places, 14 = (Nat.toDigits 10 n).length + places :=
    Nat.exists_eq_add_of_le ((Nat.length_toDigits_le_iff (by decide) (by decide)).2 h)
  have hexponent : (((Nat.toDigits 10 n).length - 1 : Nat) : ℤ) + 1 - (shownDigits : Nat) =
      -(places : ℤ) := by
    rw [shownDigits]
    omega
  have hround : roundRat ((n : ℚ) / 10 ^ (-(places : ℤ))) = n * 10 ^ places := by
    rw [zpow_neg, div_inv_eq_mul, zpow_natCast, ← roundRat_natCast (n * 10 ^ places)]
    push_cast
    rfl
  -- Nothing is rounded up to one digit more.
  have hne : n * 10 ^ places ≠ Nat.pow 10 shownDigits := by
    apply Nat.ne_of_lt
    calc n * 10 ^ places < 10 ^ (Nat.toDigits 10 n).length * 10 ^ places := by
          gcongr
          exact (toDigits_bounds hn).2
      _ = Nat.pow 10 shownDigits := by
          rw [← pow_add, ← hplaces]
          rfl
  have hcast : (n : ℚ) ≠ 0 := by exact_mod_cast hn
  rw [rounded, if_neg hcast]
  dsimp only
  rw [floorLog10_natCast hn, hexponent, hround, if_neg hne]
  change -(places : ℤ) = _
  omega

/-- A natural number of at most fourteen digits is shown as it is written in decimal. -/
theorem magnitudeText_natCast {n : Nat} (h : n < 10 ^ 14) :
    magnitudeText n = Nat.toDigits 10 n := by
  have hlength : 0 < (Nat.toDigits 10 n).length := Nat.length_toDigits_pos
  have hle : (Nat.toDigits 10 n).length ≤ 14 :=
    (Nat.length_toDigits_le_iff (by decide) (by decide)).2 h
  rw [magnitudeText, exponent_rounded h]
  dsimp only
  rw [if_pos (by rw [shownDigits]; omega), toFixed_natCast,
    trimFraction_digits fun d hd => isDigit_toDigits hd]

/-- An integer up to `2 ^ 53` is a number of its sign and its amount. -/
theorem ofInt_eq_finite {z : ℤ} (h : z.natAbs ≤ 2 ^ 53) :
    ∃ rank, ofInt z = .finite (decide (z < 0)) rank ∧ magnitude rank = z.natAbs := by
  obtain ⟨r, hr, hmagnitude⟩ := exists_magnitude_eq h
  refine ⟨⟨r, hr⟩, ?_, hmagnitude⟩
  by_cases hz : z = 0
  · have hzero : r = 0 := by
      apply magnitude_le_zero_iff.1
      rw [hmagnitude, hz]
      simp
    rw [hz, ofInt, ofRat, if_pos Int.cast_zero]
    subst hzero
    rfl
  · have hpos : (0 : ℚ) < z.natAbs := by exact_mod_cast Int.natAbs_pos.2 hz
    have hvalue : (z : ℚ) = if decide (z < 0) then -(z.natAbs : ℚ) else z.natAbs := by
      by_cases hneg : z < 0
      · have hamount : (z.natAbs : ℤ) = -z := by omega
        rw [if_pos (decide_eq_true hneg), ← Int.cast_natCast, hamount, Int.cast_neg, neg_neg]
      · have hamount : (z.natAbs : ℤ) = z := by omega
        rw [if_neg (by simpa using hneg), ← Int.cast_natCast, hamount]
    rw [ofInt, hvalue, ofRat_of_pos hpos, ← hmagnitude, nearestRank_magnitude, ofRank, dif_pos hr]

theorem toList_toString_intCast (z : ℤ) : (toString z).toList =
    (if z < 0 then ['-'] else []) ++ Nat.toDigits 10 z.natAbs := by
  cases z with
  | ofNat n => exact toList_toString_natCast n
  | negSucc n =>
    rw [toList_toString_negSucc, if_pos (Int.negSucc_lt_zero n)]
    rfl

/-- An integer of at most fourteen digits is shown as it is written in decimal. -/
theorem toText_ofInt {z : ℤ} (h : z.natAbs < 10 ^ 14) : toText (ofInt z) = toString z := by
  obtain ⟨rank, hrank, hmagnitude⟩ := ofInt_eq_finite (z := z) (by omega)
  rw [← String.toList_inj, toList_toString_intCast, hrank, toText, hmagnitude,
    magnitudeText_natCast h]
  by_cases hz : z < 0 <;> simp [withSign, hz]

/-! ## Reading integers -/

theorem ofDecimal_false (n : Nat) : ofDecimal false n 0 = ofInt n := by
  rw [ofDecimal_eq_ofRat, zpow_zero, mul_one, ofInt, Int.cast_natCast]
  rfl

theorem ofDecimal_true {n : Nat} (hn : n ≠ 0) : ofDecimal true n 0 = ofInt (-n) := by
  have hpos : (0 : ℚ) < n := by exact_mod_cast Nat.pos_of_ne_zero hn
  have hround := ofRat_of_pos hpos false true
  rw [ofDecimal_eq_ofRat, zpow_zero, mul_one, ofRat_of_pos hpos, ← hround, ofInt]
  push_cast
  rfl

/-- What is written as an integer is worth the number nearest to it, however long it is. -/
theorem ofText?_toString (z : ℤ) : ofText? (toString z) = some (ofInt z) := by
  have hmark : ∀ n : Nat, stripHexMark (Nat.toDigits 10 n) = none := by
    intro n
    have hdigits := stripHexMark_of_isDigit (r := []) (fun d hd => isDigit_toDigits (n := n) hd)
      Nat.toDigits_ne_nil (by simp)
    rwa [List.append_nil] at hdigits
  have hblank : ∀ {n : Nat}, ∀ d ∈ Nat.toDigits 10 n, isBlank d = false := fun d hd =>
    isBlank_of_isNumeralChar (isNumeralChar_of_isDigit (isDigit_toDigits hd))
  cases z with
  | ofNat n =>
    obtain ⟨c, cs, hcs, hdigits⟩ := toDigits_eq_cons n
    have htext : (toString (Int.ofNat n)).toList = c :: cs := (toList_toString_natCast n).trans hcs
    rw [ofText?_eq htext (.inl (hdigits c (by simp))) (hcs ▸ hblank), ← hcs, hmark,
      readDecimal?_toDigits, ofDecimal_false]
    rfl
  | negSucc n =>
    have htrim : trimBoth isBlank ('-' :: Nat.toDigits 10 (n + 1)) =
        '-' :: Nat.toDigits 10 (n + 1) :=
      trimBoth_of_not (List.forall_mem_cons.2 ⟨by decide, hblank⟩)
    have hsign : splitSign ('-' :: Nat.toDigits 10 (n + 1)) = (true, Nat.toDigits 10 (n + 1)) := rfl
    rw [ofText?, toList_toString_negSucc, ofChars?, htrim, readDecimal?_of_all]
    change (match stripHexMark (Nat.toDigits 10 (n + 1)) with
      | some digits => (readDigits? 16 digits).map fun x => if true then -x else x
      | none => readDecimal? ('-' :: Nat.toDigits 10 (n + 1))) = _
    rw [hmark, readDecimal?_of_splitSign hsign, ofDecimal_true (Nat.succ_ne_zero n)]
    rfl

/-! ## Digits of a base -/

/-- The digits in the order of what they are worth. -/
def digitChars : List Char :=
  ['0', '1', '2', '3', '4', '5', '6', '7', '8', '9', 'a', 'b', 'c', 'd', 'e', 'f', 'g', 'h',
    'i', 'j', 'k', 'l', 'm', 'n', 'o', 'p', 'q', 'r', 's', 't', 'u', 'v', 'w', 'x', 'y', 'z']

/-- A character, be it a letter of either case, stands for a digit of a base. -/
def StandsFor (base : Nat) (c : Char) (d : Nat) : Prop :=
  d < base ∧ digitChars[d]? = some c.toLower

instance (base : Nat) (c : Char) (d : Nat) : Decidable (StandsFor base c d) :=
  inferInstanceAs (Decidable (_ ∧ _))

/-- The digits of the largest base. The characters of one byte are looked through one by one. -/
theorem digit?_ofNat {n : Nat} (hn : n < 128) (d : Nat) :
    digit? 36 (Char.ofNat n) = some d ↔ StandsFor 36 (Char.ofNat n) d := by
  have hall : ∀ n < 128, ∀ d < 36, digit? 36 (Char.ofNat n) = some d ↔
      StandsFor 36 (Char.ofNat n) d := by
    decide +kernel
  by_cases hd : d < 36
  · exact hall n hn d hd
  · apply iff_of_false
    · intro h
      exact hd (by simpa using (Option.filter_eq_some_iff.1 h).2)
    · exact fun h => hd h.1

theorem not_alphanum_of_le {c : Char} (h : 128 ≤ c.toNat) :
    c.isDigit = false ∧ c.isLower = false ∧ c.isUpper = false := by
  simp only [Char.isDigit, Char.isLower, Char.isUpper, Char.toNat, UInt32.le_iff_toNat_le,
    ge_iff_le] at h ⊢
  refine ⟨?_, ?_, ?_⟩ <;> grind

theorem digit?_thirtySix {c : Char} {d : Nat} : digit? 36 c = some d ↔ StandsFor 36 c d := by
  rcases Nat.lt_or_ge c.toNat 128 with hc | hc
  · rw [← Char.ofNat_toNat c]
    exact digit?_ofNat hc d
  -- No digit stands that far behind.
  have hchars : digitChars.all (·.toNat < 128) = true := by decide
  obtain ⟨hdigit, hlower, hupper⟩ := not_alphanum_of_le hc
  have htoLower : c.toLower = c := dif_neg (of_decide_eq_false hupper)
  apply iff_of_false
  · simp [digit?, hdigit, hlower, hupper]
  · rintro ⟨-, h⟩
    rw [htoLower] at h
    have hlt := List.all_eq_true.1 hchars c (List.mem_of_getElem? h)
    exact absurd (of_decide_eq_true hlt) (by omega)

theorem digit?_eq_some_iff {base : Nat} (hbase : base ≤ 36) {c : Char} {d : Nat} :
    digit? base c = some d ↔ StandsFor base c d := by
  have hfilter : digit? base c = (digit? 36 c).filter (· < base) := by
    rw [digit?, digit?, Option.filter_filter]
    congr 1
    funext d
    grind
  rw [hfilter, Option.filter_eq_some_iff, digit?_thirtySix, StandsFor, StandsFor]
  grind

theorem exists_ofNat_eq {n : Nat} (h : n ≤ 2 ^ 53) :
    ∃ rank, ofNat n = .finite false rank ∧ magnitude rank = n := by
  obtain ⟨rank, hrank, hmagnitude⟩ := ofInt_eq_finite (z := n) (by simpa using h)
  refine ⟨rank, ?_, by simpa using hmagnitude⟩
  rw [← ofInt_natCast, hrank]
  simp

/-- Products of small integers are rounded once. -/
theorem ofNat_mul_ofNat {m n : Nat} (hm : m ≤ 2 ^ 53) (hn : n ≤ 2 ^ 53) :
    ofNat m * ofNat n = ofNat (m * n) := by
  obtain ⟨r, hr, hmagnitude⟩ := exists_ofNat_eq hm
  obtain ⟨t, ht, hmagnitude'⟩ := exists_ofNat_eq hn
  rw [hr, ht]
  change ofRat false (magnitude r * magnitude t) = _
  rw [hmagnitude, hmagnitude', ofNat, Nat.cast_mul]

/-- So are their sums. -/
theorem ofNat_add_ofNat {m n : Nat} (hm : m ≤ 2 ^ 53) (hn : n ≤ 2 ^ 53) :
    ofNat m + ofNat n = ofNat (m + n) := by
  obtain ⟨r, hr, hmagnitude⟩ := exists_ofNat_eq hm
  obtain ⟨t, ht, hmagnitude'⟩ := exists_ofNat_eq hn
  rw [hr, ht]
  change ofRat false (magnitude r + magnitude t) = _
  rw [hmagnitude, hmagnitude', ofNat, Nat.cast_add]

section Digits

variable {base n d : Nat} {c : Char} {cs : List Char} {ds : List Nat}

/-- One more digit is exact while the value stays within `2 ^ 53`. -/
theorem appendDigit_ofNat (hpos : 0 < base) (hbase : base ≤ 36) (h : StandsFor base c d)
    (hle : base * n + d ≤ 2 ^ 53) : appendDigit base (ofNat n) c = some (ofNat (base * n + d)) := by
  have hn : n ≤ base * n := Nat.le_mul_of_pos_left n hpos
  rw [appendDigit, (digit?_eq_some_iff hbase).2 h, Option.map_some,
    ofNat_mul_ofNat (by omega) (by omega), Nat.mul_comm n, ofNat_add_ofNat (by omega) (by omega)]

/-- What comes before a digit is not worth more than the whole, so all steps are exact. -/
theorem foldlM_appendDigit (hpos : 0 < base) (hbase : base ≤ 36)
    (h : List.Forall₂ (StandsFor base) cs ds) (hle : valueFrom base n ds ≤ 2 ^ 53) :
    cs.foldlM (appendDigit base) (ofNat n) = some (ofNat (valueFrom base n ds)) := by
  induction h generalizing n with
  | nil => rfl
  | @cons c d cs ds hd _ ih =>
    have hstep : base * n + d ≤ 2 ^ 53 := (le_valueFrom hpos (base * n + d) ds).trans hle
    rw [List.foldlM_cons, appendDigit_ofNat hpos hbase hd hstep]
    exact ih hle

theorem valueFrom_eq_ofDigits (base : Nat) (ds : List Nat) :
    valueFrom base 0 ds = Nat.ofDigits base ds.reverse := by
  rw [Nat.ofDigits_eq_foldr, List.foldr_reverse, valueFrom]
  congr 1
  funext n d
  exact Nat.add_comm _ _

/-- Digits are read as their value in the base, as long as that is within `2 ^ 53`. -/
theorem readDigits?_eq_ofNat (hpos : 0 < base) (hbase : base ≤ 36) (hne : cs ≠ [])
    (h : List.Forall₂ (StandsFor base) cs ds) (hle : Nat.ofDigits base ds.reverse ≤ 2 ^ 53) :
    readDigits? base cs = some (ofNat (Nat.ofDigits base ds.reverse)) := by
  have hzero : ofNat 0 = zero false := by rw [ofNat, ofRat, if_pos Nat.cast_zero]
  rw [← valueFrom_eq_ofDigits] at hle ⊢
  rw [readDigits?, if_neg (by simpa using hne), ← hzero]
  exact foldlM_appendDigit hpos hbase h hle

/-- A single character that is no digit of the base spoils the whole. -/
theorem readDigits?_eq_none (hbase : base ≤ 36) (hc : c ∈ cs) (h : ∀ d, ¬ StandsFor base c d) :
    readDigits? base cs = none := by
  have hstep : ∀ x, appendDigit base x c = none := by
    intro x
    rw [appendDigit, Option.map_eq_none_iff, Option.eq_none_iff_forall_not_mem]
    exact fun d hd => h d ((digit?_eq_some_iff hbase).1 hd)
  have hfold : ∀ x, cs.foldlM (appendDigit base) x = none := by
    induction cs with
    | nil => cases hc
    | cons e cs ih =>
      intro x
      rw [List.foldlM_cons]
      rcases List.mem_cons.1 hc with rfl | hc
      · rw [hstep]
        rfl
      · cases appendDigit base x e with
        | none => rfl
        | some y => exact ih hc y
  rw [readDigits?]
  split
  · rfl
  · exact hfold _

end Digits

/-- An integer of at most fourteen digits is shown as it is written in decimal, without an exponent,
and is read back from that. In a base up to 36, digits whose value is below `2 ^ 53` are read as
just that value, whichever case their letters are in, and a text with anything else in it is
refused. -/
theorem integers_read_back :
    (∀ z : ℤ, z.natAbs < 10 ^ 14 →
      (ofInt z).toRat? = some (z : ℚ) ∧ toText (ofInt z) = toString z ∧
        ofText? (toText (ofInt z)) = some (ofInt z)) ∧
    ∀ base, 2 ≤ base → base ≤ 36 → ∀ cs : List Char,
      (∀ ds, cs ≠ [] → List.Forall₂ (StandsFor base) cs ds →
        Nat.ofDigits base ds.reverse < 2 ^ 53 →
          readDigits? base cs = some (ofNat (Nat.ofDigits base ds.reverse)) ∧
            (ofNat (Nat.ofDigits base ds.reverse)).toRat? =
              some ((Nat.ofDigits base ds.reverse : Nat) : ℚ)) ∧
      ∀ c ∈ cs, (∀ d, ¬ StandsFor base c d) → readDigits? base cs = none := by
  refine ⟨fun z hz => ?_, fun base hlow hhigh cs => ⟨fun ds hne hds hlt => ?_, fun c hc h => ?_⟩⟩
  · have htext := toText_ofInt hz
    refine ⟨toRat?_ofInt (by omega), htext, ?_⟩
    rw [htext, ofText?_toString]
  · refine ⟨readDigits?_eq_ofNat (by omega) hhigh hne hds hlt.le, ?_⟩
    exact toRat?_ofNat hlt.le
  · exact readDigits?_eq_none hhigh hc h

/-- The zeros of a round number are kept, letters of both cases stand for digits, and `9` is no
octal digit. -/
theorem integers_read_back_round :
    toText (ofInt (-10000000000000)) = "-10000000000000" ∧
      ofText? "-10000000000000" = some (ofInt (-10000000000000)) ∧
      readDigits? 36 ['z', 'Z'] = some (ofNat 1295) ∧ readDigits? 8 ['1', '9'] = none := by
  obtain ⟨-, htext, hread⟩ := integers_read_back.1 (-10000000000000) (by decide)
  have hdigits : List.Forall₂ (StandsFor 36) ['z', 'Z'] [35, 35] :=
    .cons (by decide) (.cons (by decide) .nil)
  have hnine : ∀ d, ¬ StandsFor 8 '9' d := by
    rintro d ⟨hd, hchar⟩
    interval_cases d <;> cases hchar
  have hletters := ((integers_read_back.2 36 (by decide) (by decide) ['z', 'Z']).1 [35, 35]
    (by decide) hdigits (by decide)).1
  refine ⟨htext, ?_, hletters, ?_⟩
  · rw [htext] at hread
    exact hread
  · exact (integers_read_back.2 8 (by decide) (by decide) ['1', '9']).2 '9' (by decide) hnine

end LuaLang.Number
