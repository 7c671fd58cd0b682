import LuaLang.Number.Basic
import LuaLang.Number.Positional

/-!
# Reading numerals

A decimal numeral is read as the number nearest to the value that is written, however many digits it
has. Digits of any other base are folded one by one, each step rounding on its own.

## Main definitions

* `Number.ofDecimal`: the number nearest to `digits * 10 ^ exponent`.
* `Number.readDecimal?`: reads a signed decimal numeral with an optional fraction and exponent.
* `Number.readDigits?`: reads digits of a base from 2 to 36, without sign or point.
* `Number.ofLiteral?`: reads a number literal of the source.
* `Number.ofText?`: reads what a string is worth as a number.
-/

namespace LuaLang.Number

/-- The number nearest to `digits * 10 ^ exponent`. Exponents that are out of reach for certain are
settled without computing the power. -/
def ofDecimal (negative : Bool) (digits : Nat) (exponent : Int) : Number :=
  if digits = 0 then zero negative
  else if 400 < exponent + 3 * digits.log2 / 10 then infinite negative
  else if exponent + digits.log2 < -400 then zero negative
  else
    let value := (digits : Rat) * (10 : Rat) ^ exponent
    ofRat negative (if negative then -value else value)

def decimalDigit (c : Char) : Nat :=
  c.toNat - '0'.toNat

def decimalValue (cs : List Char) : Nat :=
  valueByPairs 10 cs.length.log2 (cs.map decimalDigit)

theorem decimalValue_eq_foldl (cs : List Char) :
    decimalValue cs = cs.foldl (fun n c => 10 * n + decimalDigit c) 0 := by
  rw [decimalValue, valueByPairs_eq, valueFrom, List.foldl_map]

/-- Splits a sign off. A missing sign is positive. -/
def splitSign : List Char → Bool × List Char
  | '-' :: cs => (true, cs)
  | '+' :: cs => (false, cs)
  | cs => (false, cs)

def splitFraction : List Char → List Char × List Char
  | '.' :: cs => cs.span Char.isDigit
  | cs => ([], cs)

/-- One more digit of an exponent. From 65536 on an exponent is out of reach of all numerals of
ordinary length, and further digits do not count. -/
def appendExponentDigit (n : Nat) (c : Char) : Nat :=
  if n < 0x10000 then 10 * n + decimalDigit c else n

def exponentValue (cs : List Char) : Nat :=
  cs.foldl appendExponentDigit 0

/-- Reads the exponent that has to end a numeral: nothing at all, or `e` and a signed integer. -/
def readExponent? : List Char → Option Int
  | [] => some 0
  | c :: cs =>
    if c = 'e' ∨ c = 'E' then
      let (negative, digits) := splitSign cs
      if digits.isEmpty || !digits.all Char.isDigit then none
      else
        let value : Int := exponentValue digits
        some (if negative then -value else value)
    else none

/-- Reads a decimal numeral: an optional sign, digits with an optional point among or around them,
and an optional exponent. -/
def readDecimal? (cs : List Char) : Option Number :=
  let (negative, cs) := splitSign cs
  let (whole, cs) := cs.span Char.isDigit
  let (fraction, cs) := splitFraction cs
  let digits := whole ++ fraction
  if digits.isEmpty then none
  else
    match readExponent? cs with
    | some exponent =>
      some (ofDecimal negative (decimalValue digits) (exponent - fraction.length))
    | none => none

/-! ## Other bases -/

/-- What a digit is worth in a base; letters of either case stand for ten and above. -/
def digit? (base : Nat) (c : Char) : Option Nat :=
  let value :=
    if c.isDigit then some (c.toNat - '0'.toNat)
    else if c.isLower then some (c.toNat - 'a'.toNat + 10)
    else if c.isUpper then some (c.toNat - 'A'.toNat + 10)
    else none
  value.filter (· < base)

/-- One digit more: the number so far times the base, plus the digit. -/
def appendDigit (base : Nat) (x : Number) (c : Char) : Option Number :=
  (digit? base c).map fun d => x * ofNat base + ofNat d

/-- Reads a nonempty row of digits. -/
def readDigits? (base : Nat) (cs : List Char) : Option Number :=
  if cs.isEmpty then none else cs.foldlM (appendDigit base) (zero false)

/-- Splits the mark of a hexadecimal numeral off. -/
def stripHexMark : List Char → Option (List Char)
  | '0' :: 'x' :: cs => some cs
  | '0' :: 'X' :: cs => some cs
  | _ => none

/-! ## Literals -/

/-- Reads a signed integer that fits a word of 32 bits. -/
def readWord? (cs : List Char) : Option Int :=
  let (negative, digits) := splitSign cs
  if digits.isEmpty || !digits.all Char.isDigit then none
  else
    let magnitude : Int := decimalValue digits
    let value := if negative then -magnitude else magnitude
    if -0x80000000 ≤ value ∧ value < 0x80000000 then some value else none

/-- An integer with an exponent that is too large, which stands for infinity: the positive one if
the integer is positive. -/
def readOverflow? (cs : List Char) : Option Number :=
  let (mantissa, rest) := cs.span fun c => c != 'e' && c != 'E'
  match rest with
  | [] => none
  | _ :: rest =>
    match readWord? mantissa, readWord? rest with
    | some m, some _ => some (infinite (decide (m ≤ 0)))
    | _, _ => none

def ofLiteral? (text : String) : Option Number :=
  let cs := text.toList
  let direct := match stripHexMark cs with
    | some digits => readDigits? 16 digits
    | none => (readDecimal? cs).filter isFinite
  direct <|> readOverflow? cs

/-! ## Strings as numbers -/

/-- The six blank characters of the language. -/
def isBlank (c : Char) : Bool :=
  c = ' ' ∨ c = '\t' ∨ c = '\n' ∨ c = '\r' ∨ c = '\x0b' ∨ c = '\x0c'

def trimBoth (p : Char → Bool) (cs : List Char) : List Char :=
  ((cs.dropWhile p).reverse.dropWhile p).reverse

def isNumeralChar (c : Char) : Bool :=
  c.isDigit ∨ c = '.' ∨ c = 'e' ∨ c = 'E' ∨ c = '+' ∨ c = '-'

/-- The number that a text stands for: a decimal or hexadecimal numeral among blanks. -/
def ofChars? (cs : List Char) : Option Number :=
  let cs := trimBoth isBlank cs
  let (negative, magnitude) := match cs with
    | '-' :: rest => (true, rest)
    | _ => (false, cs)
  match stripHexMark magnitude with
  | some digits => (readDigits? 16 digits).map fun x => if negative then -x else x
  | none => if cs.all isNumeralChar then readDecimal? cs else none

def ofText? (text : String) : Option Number :=
  ofChars? text.toList

end LuaLang.Number
