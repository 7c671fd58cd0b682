/-!
# Numbers

The numbers of the language are the binary floating-point numbers of 64 bits. All NaNs are one
value. A finite magnitude is named by its *rank*: rank 0 is zero, and each further rank is the next
larger magnitude that can be represented, so the order of magnitudes is the order of ranks, and the
rank after the last one is where infinity begins.

Every operation is exact arithmetic on rationals followed by one rounding, `Number.ofRat`.

## Main definitions

* `Number`: the numbers.
* `Number.magnitude`: the rational that a rank stands for.
* `Number.nearestRank`: the rank of the magnitude nearest to a rational, halves to the even rank.
* `Number.place`: the position of a number on the line, on which the comparisons rest.
-/

namespace LuaLang

/-- How many magnitudes there are from one power of two up to the next, which is itself `2 ^ 52`. -/
def Number.binade : Nat := 0x10000000000000

def Number.rankCount : Nat := 2047 * binade

/-- A floating-point number of 64 bits. -/
inductive Number where
  | nan
  | infinite (negative : Bool)
  | finite (negative : Bool) (rank : Fin Number.rankCount)
deriving DecidableEq, Hashable, Repr

namespace Number

/-! ## What a rank stands for -/

/-- The integer that a magnitude has in front of its power of two. -/
def significand (rank : Nat) : Nat :=
  if rank < binade then rank else binade + rank % binade

/-- The power of two that a magnitude has behind its significand. -/
def exponent (rank : Nat) : Int :=
  (max 1 (rank / binade) : Nat) - 1075

def magnitude (rank : Nat) : Rat :=
  significand rank * (2 : Rat) ^ exponent rank

/-! ## Rounding -/

/-- The integer nearest to `n / d`, a half going to the even neighbour. -/
def roundDiv (n d : Nat) : Nat :=
  let low := n / d
  let rest := 2 * (n % d)
  if rest < d ∨ (rest = d ∧ low % 2 = 0) then low else low + 1

/-- The integer nearest to a nonnegative rational, a half going to the even neighbour. -/
def roundRat (q : Rat) : Nat :=
  roundDiv q.num.natAbs q.den

/-- The largest `k` with `2 ^ k ≤ q`, for positive `q`. -/
def floorLog2 (q : Rat) : Int :=
  let k : Int := q.num.natAbs.log2 - q.den.log2
  if (2 : Rat) ^ k ≤ q then k else k - 1

/-- The rank of the magnitude nearest to a nonnegative rational, a half going to the even rank.
Rationals beyond all magnitudes have ranks of `rankCount` and more. -/
def nearestRank (q : Rat) : Nat :=
  if q = 0 then 0
  else
    let e := max (floorLog2 q - 52) (-1074)
    (e + 1074).toNat * binade + roundRat (q / (2 : Rat) ^ e)

def zero (negative : Bool) : Number :=
  .finite negative ⟨0, by decide⟩

/-- The number of the given sign and rank, infinite past the last rank. -/
def ofRank (negative : Bool) (rank : Nat) : Number :=
  if h : rank < rankCount then .finite negative ⟨rank, h⟩ else .infinite negative

/-- The number nearest to a rational. A rational zero has no sign of its own, so it is given one. -/
def ofRat (zeroIsNegative : Bool) (q : Rat) : Number :=
  if q = 0 then zero zeroIsNegative
  else if q < 0 then ofRank true (nearestRank (-q))
  else ofRank false (nearestRank q)

def ofInt (i : Int) : Number :=
  ofRat false i

def ofNat (n : Nat) : Number :=
  ofRat false n

def signed (negative : Bool) (rank : Nat) : Rat :=
  if negative then -magnitude rank else magnitude rank

/-! ## Classes -/

def isNaN : Number → Bool
  | nan => true
  | _ => false

def isFinite : Number → Bool
  | finite .. => true
  | _ => false

def toRat? : Number → Option Rat
  | finite negative rank => some (signed negative rank)
  | _ => none

/-- The integer that a number is equal to, if there is one. -/
def toInt? (x : Number) : Option Int :=
  match x.toRat? with
  | some q => if q.den = 1 then some q.num else none
  | none => none

/-! ## Comparison -/

/-- The position of a number on the line. Both zeros are at 0, and NaN is nowhere. -/
def place : Number → Option Int
  | nan => none
  | infinite negative => some (if negative then -rankCount else rankCount)
  | finite negative rank => some (if negative then -rank else rank)

/-- Whether two numbers stand at the same place, so NaN differs from itself and the zeros agree. -/
def equals (x y : Number) : Bool :=
  match x.place, y.place with
  | some p, some q => p == q
  | _, _ => false

/-- Two numbers are equal exactly if they are the same or two zeros, and not NaN. -/
theorem equals_iff (x y : Number) :
    x.equals y = true ↔
      x ≠ nan ∧ (x = y ∨ (x = zero true ∧ y = zero false) ∨ (x = zero false ∧ y = zero true)) := by
  cases x with
  | nan => simp [equals, place]
  | infinite s => cases y <;> grind [equals, place, zero, rankCount, binade]
  | finite s q => cases y <;> grind [equals, place, zero]

def less (x y : Number) : Bool :=
  match x.place, y.place with
  | some p, some q => p < q
  | _, _ => false

def lessEqual (x y : Number) : Bool :=
  match x.place, y.place with
  | some p, some q => p ≤ q
  | _, _ => false

/-! ## Arithmetic -/

protected def neg : Number → Number
  | nan => nan
  | infinite negative => infinite !negative
  | finite negative rank => finite (!negative) rank

instance : Neg Number := ⟨Number.neg⟩

/-- Opposite infinities have no sum, and opposite numbers add up to the positive zero. -/
protected def add : Number → Number → Number
  | nan, _ => nan
  | _, nan => nan
  | infinite s, infinite t => if s = t then infinite s else nan
  | infinite s, finite .. => infinite s
  | finite .., infinite t => infinite t
  | finite s x, finite t y => ofRat (s && t) (signed s x + signed t y)

instance : Add Number := ⟨Number.add⟩

protected def sub (x y : Number) : Number :=
  x + -y

instance : Sub Number := ⟨Number.sub⟩

/-- An infinity and a zero have no product. -/
protected def mul : Number → Number → Number
  | nan, _ => nan
  | _, nan => nan
  | infinite s, infinite t => infinite (s != t)
  | infinite s, finite t y => if y.val = 0 then nan else infinite (s != t)
  | finite s x, infinite t => if x.val = 0 then nan else infinite (s != t)
  | finite s x, finite t y => ofRat (s != t) (signed s x * signed t y)

instance : Mul Number := ⟨Number.mul⟩

/-- Neither two infinities nor two zeros have a quotient. -/
protected def div : Number → Number → Number
  | nan, _ => nan
  | _, nan => nan
  | infinite _, infinite _ => nan
  | infinite s, finite t _ => infinite (s != t)
  | finite s _, infinite t => zero (s != t)
  | finite s x, finite t y =>
    if y.val = 0 then (if x.val = 0 then nan else infinite (s != t))
    else ofRat (s != t) (signed s x / signed t y)

instance : Div Number := ⟨Number.div⟩

/-- The largest integral number that is not above `x`. -/
def floor : Number → Number
  | finite negative rank => ofRat negative (signed negative rank).floor
  | x => x

/-- The part of `x` before the point, kept within bounds; NaN counts as zero. -/
def truncate (low high : Int) : Number → Int
  | nan => 0
  | infinite negative => if negative then low else high
  | finite negative rank =>
    let whole := (magnitude rank).floor
    max low (min high (if negative then -whole else whole))

/-! ## Words of 64 bits -/

/-- What the sign of a negative number is worth in its word, `2 ^ 63`. -/
def signBit : Nat := 0x8000000000000000

/-- The word of a number: its sign, then its rank. -/
def toBits : Number → UInt64
  | nan => 0x7ff8000000000000
  | infinite negative => word negative rankCount
  | finite negative rank => word negative rank
where
  word (negative : Bool) (rank : Nat) : UInt64 :=
    ((if negative then signBit else 0) + rank).toUInt64

/-- The number of a word. Every word past infinity is a NaN. -/
def ofBits (bits : UInt64) : Number :=
  let rank := bits.toNat % signBit
  if rank ≤ rankCount then ofRank (decide (signBit ≤ bits.toNat)) rank else nan

/-- Powers are those of the machine's floating-point unit. -/
protected def pow (x y : Number) : Number :=
  ofBits (Float.pow (Float.ofBits x.toBits) (Float.ofBits y.toBits)).toBits

instance : HomogeneousPow Number := ⟨Number.pow⟩

end Number

end LuaLang
