import LuaLang.Number.Basic

/-!
# Writing numbers

Two ways to choose the digits of a number, and the notations made from them.

## Main definitions

* `Decimal`: an integer in front of a power of ten.
* `Number.shortest`: the fewest digits that read back as the same magnitude, the nearest of those.
* `Number.rounded`: a given number of significant digits, halves to the even neighbour.
* `Number.toScientific`: shortest digits with an exponent, `1.5e-7`.
* `Number.toPlain`: shortest digits with a point, `1.0`, and an exponent only far from one.
* `Number.toText`: fourteen significant digits, as the language shows its numbers.
-/

namespace LuaLang

/-- The decimal `coefficient * 10 ^ exponent`. -/
structure Decimal where
  coefficient : Nat
  exponent : Int
deriving DecidableEq, Repr

namespace Decimal

def digits (d : Decimal) : List Char :=
  Nat.toDigits 10 d.coefficient

/-- Moves the zeros that end the coefficient into the exponent, at most `fuel` of them. -/
def dropZeros : Nat → Decimal → Decimal
  | 0, d => d
  | fuel + 1, d =>
    if d.coefficient ≠ 0 ∧ d.coefficient % 10 = 0 then
      dropZeros fuel ⟨d.coefficient / 10, d.exponent + 1⟩
    else d

/-- The same decimal with the smallest coefficient. -/
def normalize (d : Decimal) : Decimal :=
  dropZeros d.digits.length d

/-- The power of ten of the first digit. -/
def leadingExponent (d : Decimal) : Int :=
  d.exponent + d.digits.length - 1

def toScientific (d : Decimal) : String :=
  let mantissa := match d.digits with
    | [] => []
    | [c] => [c]
    | c :: cs => c :: '.' :: cs
  String.ofList mantissa ++ "e" ++ toString d.leadingExponent

/-- All digits with a point, and at least one digit on each side of it. -/
def toPlain (d : Decimal) : String :=
  let ds := d.digits
  if 0 ≤ d.exponent then
    String.ofList (ds ++ List.replicate d.exponent.toNat '0') ++ ".0"
  else
    let places := d.exponent.natAbs
    let padded := List.replicate (places + 1 - ds.length) '0' ++ ds
    let whole := padded.length - places
    String.ofList (padded.take whole) ++ "." ++ String.ofList (padded.drop whole)

end Decimal

namespace Number

/-- The largest `k` with `10 ^ k ≤ q`, for positive `q`. -/
def floorLog10 (q : Rat) : Int :=
  let k : Int := (Nat.toDigits 10 q.num.natAbs).length - (Nat.toDigits 10 q.den).length
  if (10 : Rat) ^ k ≤ q then k else k - 1

/-! ## The fewest digits -/

/-- The decimal with `count` digits that is nearest to the magnitude of `rank` among those that read
back as it, if there is one. Only the two neighbours of the magnitude on the grid of such decimals
can be; of two equally near ones the larger is taken. -/
def nearestDecimal? (rank : Nat) (count : Nat) : Option Decimal :=
  let q := magnitude rank
  let k := floorLog10 q + 1 - count
  let scaled := q / (10 : Rat) ^ k
  let low := scaled.floor.toNat
  let readsBack (n : Nat) : Bool := nearestRank ((n : Rat) * (10 : Rat) ^ k) = rank
  if readsBack low ∧ (scaled - low < low + 1 - scaled ∨ !readsBack (low + 1)) then some ⟨low, k⟩
  else if readsBack (low + 1) then some ⟨low + 1, k⟩
  else none

def exactDecimal (rank : Nat) : Decimal :=
  if 0 ≤ exponent rank then ⟨significand rank * Nat.pow 2 (exponent rank).toNat, 0⟩
  else ⟨significand rank * Nat.pow 5 (exponent rank).natAbs, exponent rank⟩

/-- The fewest digits that read back as the magnitude of `rank`. -/
def shortest (rank : Nat) : Decimal :=
  if rank = 0 then ⟨0, 0⟩
  else
    (((List.range 17).findSome? fun n => nearestDecimal? rank (n + 1)).getD
      (exactDecimal rank)).normalize

def withSign (negative : Bool) (magnitude : String) : String :=
  if negative then "-" ++ magnitude else magnitude

def toScientific : Number → String
  | nan => "NaN"
  | infinite negative => withSign negative "inf"
  | finite negative rank => withSign negative (shortest rank).toScientific

/-- The text of a number with a point; scientific below a ten-thousandth and from 10 ^ 16 on. -/
def toPlain : Number → String
  | finite negative rank =>
    let q := magnitude rank
    let far := (0 < q ∧ q < 1 / 10000) ∨ 10000000000000000 ≤ q
    let d := shortest rank
    withSign negative (if far then d.toScientific else d.toPlain)
  | x => x.toScientific

/-! ## A given number of digits -/

/-- The decimal of `count` significant digits nearest to a nonnegative rational. -/
def rounded (count : Nat) (q : Rat) : Decimal :=
  if q = 0 then ⟨0, 1 - count⟩
  else
    let k := floorLog10 q + 1 - count
    let n := roundRat (q / (10 : Rat) ^ k)
    if n = Nat.pow 10 count then ⟨Nat.pow 10 (count - 1), k + 1⟩ else ⟨n, k⟩

def padLeft (width : Nat) (cs : List Char) : List Char :=
  List.replicate (width - cs.length) '0' ++ cs

/-- A nonnegative rational with a fixed number of decimal places. -/
def toFixed (places : Nat) (q : Rat) : List Char :=
  let ds := padLeft (places + 1) (Nat.toDigits 10 (roundRat (q * (10 : Rat) ^ places)))
  let whole := ds.length - places
  if places = 0 then ds else ds.take whole ++ '.' :: ds.drop whole

/-- Drops the zeros that end a fraction, and its point if nothing else is left of it. -/
def trimFraction (cs : List Char) : List Char :=
  if cs.contains '.' then
    let cs := cs.reverse.dropWhile (· = '0')
    (cs.dropWhile (· = '.')).reverse
  else cs

/-- The significant digits that the language shows. -/
def shownDigits : Nat := 14

/-- The text of a nonnegative magnitude: positional while its exponent is from -4 to 13, otherwise
with a signed exponent of at least two digits. -/
def magnitudeText (q : Rat) : List Char :=
  let d := rounded shownDigits q
  let e : Int := d.exponent + (shownDigits - 1 : Nat)
  if -4 ≤ e ∧ e < 14 then trimFraction (toFixed (13 - e).toNat q)
  else
    let mantissa := match padLeft shownDigits d.digits with
      | [] => []
      | c :: cs => c :: '.' :: cs
    trimFraction mantissa ++ 'e' :: (if e < 0 then '-' else '+') ::
      padLeft 2 (Nat.toDigits 10 e.natAbs)

/-- The text of a number as the language shows it. -/
def toText : Number → String
  | nan => "nan"
  | infinite negative => withSign negative "inf"
  | finite negative rank => withSign negative (String.ofList (magnitudeText (magnitude rank)))

end Number

end LuaLang
