import Mathlib
import LuaLang.Proofs.Scan.Lexemes

/-!
# Number literals

A number literal in front of something that cannot go on with it is scanned as one token, and what
follows is scanned as if it stood alone. There is one exception: letters are taken for what may
start an exponent in any number, so a hexadecimal literal that ends with the digit `e` takes a sign
after it for the sign of an exponent.

## Main definitions

* `Lexeme.IsNumberLiteral`: the literals, hexadecimal and decimal.
* `Token.content`: what was scanned, less its position.

## Main statements

* `Lexeme.numeral_literal_append`: how far a number goes that starts with a literal.
* `Token.content_scanAt`: what is scanned does not depend on the position it is scanned at.
* `Token.scan_literal_append_iff`: literals are scanned whole and alone, apart from the exception.
-/

namespace LuaLang

namespace Lexeme

/-! ## Literals -/

def isHexDigit (c : Char) : Bool :=
  c.isDigit || 'a' ≤ c && c ≤ 'f' || 'A' ≤ c && c ≤ 'F'

/-- The part of a decimal literal before its exponent. -/
inductive IsMantissa : List Char → Prop where
  | whole {digits : List Char} (hne : digits ≠ []) (h : ∀ d ∈ digits, d.isDigit = true) :
      IsMantissa digits
  | mixed {digits fraction : List Char} (hne : digits ≠ []) (h : ∀ d ∈ digits, d.isDigit = true)
      (hfraction : ∀ d ∈ fraction, d.isDigit = true) : IsMantissa (digits ++ '.' :: fraction)
  | fraction {digits : List Char} (hne : digits ≠ []) (h : ∀ d ∈ digits, d.isDigit = true) :
      IsMantissa ('.' :: digits)

/-- An exponent, which may be missing. -/
inductive IsExponent : List Char → Prop where
  | none : IsExponent []
  | unsigned {e : Char} {digits : List Char} (he : e = 'e' ∨ e = 'E') (hne : digits ≠ [])
      (h : ∀ d ∈ digits, d.isDigit = true) : IsExponent (e :: digits)
  | signed {e sign : Char} {digits : List Char} (he : e = 'e' ∨ e = 'E')
      (hsign : sign = '+' ∨ sign = '-') (hne : digits ≠ [])
      (h : ∀ d ∈ digits, d.isDigit = true) : IsExponent (e :: sign :: digits)

/-- The literals of numbers. -/
inductive IsNumberLiteral : List Char → Prop where
  | hexadecimal {mark : Char} {digits : List Char} (hmark : mark = 'x' ∨ mark = 'X')
      (hne : digits ≠ []) (h : ∀ d ∈ digits, isHexDigit d = true) :
      IsNumberLiteral ('0' :: mark :: digits)
  | decimal {mantissa exponent : List Char} (hmantissa : IsMantissa mantissa)
      (hexponent : IsExponent exponent) : IsNumberLiteral (mantissa ++ exponent)

theorem IsMantissa.startsNumber {mantissa : List Char} (h : IsMantissa mantissa) :
    ∃ c cs, mantissa = c :: cs ∧ ∀ more, StartsNumber c (cs ++ more) := by
  cases h with
  | whole hne h =>
    obtain ⟨c, cs, rfl⟩ := List.exists_cons_of_ne_nil hne
    exact ⟨c, cs, rfl, fun _ => .inl (h c (by simp))⟩
  | mixed hne h hfraction =>
    obtain ⟨c, cs, rfl⟩ := List.exists_cons_of_ne_nil hne
    exact ⟨c, _, rfl, fun _ => .inl (h c (by simp))⟩
  | fraction hne h =>
    obtain ⟨c, cs, rfl⟩ := List.exists_cons_of_ne_nil hne
    exact ⟨'.', _, rfl, fun _ => .inr ⟨rfl, by simp [h c (by simp)]⟩⟩

theorem IsNumberLiteral.startsNumber {literal : List Char} (h : IsNumberLiteral literal) :
    ∃ c cs, literal = c :: cs ∧ ∀ more, StartsNumber c (cs ++ more) := by
  cases h with
  | hexadecimal => exact ⟨'0', _, rfl, fun _ => .inl rfl⟩
  | decimal hmantissa hexponent =>
    obtain ⟨c, cs, rfl, hstart⟩ := hmantissa.startsNumber
    exact ⟨c, _, rfl, fun more => by simpa using hstart _⟩

/-! ## How far a number goes -/

/-- The last character could be the start of an exponent, and what follows starts with a sign. -/
def TakesSign (cs after : List Char) : Prop :=
  (cs.getLast? = some 'e' ∨ cs.getLast? = some 'E') ∧
    (after.head? = some '+' ∨ after.head? = some '-')

/-- The characters that a number is made of, apart from signs. -/
def IsNumberWord (cs : List Char) : Prop :=
  ∀ c ∈ cs, endsNumber c = false

theorem IsNumberWord.append {as bs : List Char} (ha : IsNumberWord as) (hb : IsNumberWord bs) :
    IsNumberWord (as ++ bs) :=
  fun c hc => (List.mem_append.1 hc).elim (ha c) (hb c)

theorem isNumberWord_digits {ds : List Char} (h : ∀ d ∈ ds, d.isDigit = true) :
    IsNumberWord ds :=
  fun d hd => by simp [endsNumber, Char.isAlphanum, h d hd]

theorem isNumberWord_hexDigits {ds : List Char} (h : ∀ d ∈ ds, isHexDigit d = true) :
    IsNumberWord ds := by
  intro d hd
  have hletter : d.isAlphanum = true := by
    have hdigit := h d hd
    simp only [isHexDigit, Char.isAlphanum, Char.isAlpha, Char.isUpper, Char.isLower,
      Char.isDigit, Char.le_def] at hdigit ⊢
    grind
  simp [endsNumber, hletter]

theorem IsMantissa.isNumberWord {mantissa : List Char} (h : IsMantissa mantissa) :
    IsNumberWord mantissa := by
  have hpoint : IsNumberWord ['.'] := by simp [IsNumberWord, endsNumber]
  cases h with
  | whole hne h => exact isNumberWord_digits h
  | mixed hne h hfraction =>
    exact (isNumberWord_digits h).append (hpoint.append (isNumberWord_digits hfraction))
  | fraction hne h => exact hpoint.append (isNumberWord_digits h)

/-- Only a signed exponent brings a sign into a literal. -/
theorem IsNumberLiteral.isNumberWord_or {literal : List Char} (h : IsNumberLiteral literal) :
    IsNumberWord literal ∨ ∃ word e sign digits, literal = word ++ e :: sign :: digits ∧
      IsNumberWord word ∧ (e = 'e' ∨ e = 'E') ∧ (sign = '+' ∨ sign = '-') ∧ digits ≠ [] ∧
        ∀ d ∈ digits, d.isDigit = true := by
  cases h with
  | @hexadecimal mark digits hmark hne h =>
    have hstart : IsNumberWord ['0', mark] := by
      obtain rfl | rfl := hmark <;> simp [IsNumberWord, endsNumber]
    exact .inl (hstart.append (isNumberWord_hexDigits h))
  | decimal hmantissa hexponent =>
    have hword := hmantissa.isNumberWord
    cases hexponent with
    | none => exact .inl (by rwa [List.append_nil])
    | @unsigned e digits he hne h =>
      have hletter : IsNumberWord [e] := by
        obtain rfl | rfl := he <;> simp [IsNumberWord, endsNumber]
      exact .inl (hword.append (hletter.append (isNumberWord_digits h)))
    | signed he hsign hne h => exact .inr ⟨_, _, _, _, rfl, hword, he, hsign, hne, h⟩

theorem numeral_cons {c : Char} {cs : List Char} (hc : endsNumber c = false)
    (hsign : ¬ TakesSign [c] cs) : numeral (c :: cs) = c :: numeral cs := by
  simp only [endsNumber, Bool.not_eq_false'] at hc
  cases cs with
  | nil => rw [numeral, numeral, if_pos hc]
  | cons d cs =>
    rw [numeral, if_pos hc]
    split
    · next he =>
      have he : c = 'e' ∨ c = 'E' := by simpa using he
      rw [if_neg]
      simpa [TakesSign, he] using hsign
    · rfl

theorem numeral_signed {e sign : Char} (he : e = 'e' ∨ e = 'E') (hsign : sign = '+' ∨ sign = '-')
    (cs : List Char) : numeral (e :: sign :: cs) = e :: sign :: numeral cs := by
  rw [numeral, if_pos (by simpa using he), if_pos (by simpa using hsign)]

/-- Such characters are taken up as a whole, unless a sign is taken for that of an exponent. -/
theorem IsNumberWord.numeral_append {cs after : List Char} (h : IsNumberWord cs)
    (hsign : ¬ TakesSign cs after) : numeral (cs ++ after) = cs ++ numeral after := by
  induction cs with
  | nil => rfl
  | cons c cs ih =>
    have hfirst : ¬ TakesSign [c] (cs ++ after) := by
      cases cs with
      | nil => exact hsign
      | cons d cs =>
        have hd := h d (by simp)
        rintro ⟨-, hhead⟩
        simp only [List.cons_append, List.head?_cons, Option.some.injEq] at hhead
        obtain rfl | rfl := hhead <;> exact absurd hd (by decide)
    have hrest : ¬ TakesSign cs after := by
      cases cs with
      | nil => simp [TakesSign]
      | cons d cs => simpa [TakesSign, List.getLast?_cons_cons] using hsign
    rw [List.cons_append, numeral_cons (h c (by simp)) hfirst,
      ih (fun d hd => h d (by simp [hd])) hrest, List.cons_append]

/-- A number that starts with a literal is that literal, unless a sign is taken for that of an
exponent. -/
theorem IsNumberLiteral.numeral_eq_iff {literal after : List Char} (h : IsNumberLiteral literal)
    (hafter : ∀ c ∈ after.head?, endsNumber c = true) :
    numeral (literal ++ after) = literal ↔ ¬ TakesSign literal after := by
  have hends := numeral_of_ends hafter
  rcases h.isNumberWord_or with hword | ⟨word, e, sign, digits, rfl, hword, he, hsign, hne, hdigits⟩
  · refine ⟨fun hwhole htakes => ?_, fun htakes => by
      rw [hword.numeral_append htakes, hends, List.append_nil]⟩
    obtain ⟨e, he, hlast⟩ : ∃ e, (e = 'e' ∨ e = 'E') ∧ literal.getLast? = some e := by
      obtain h | h := htakes.1
      · exact ⟨_, .inl rfl, h⟩
      · exact ⟨_, .inr rfl, h⟩
    obtain ⟨sign, hsign, hhead⟩ : ∃ sign, (sign = '+' ∨ sign = '-') ∧ after.head? = some sign := by
      obtain h | h := htakes.2
      · exact ⟨_, .inl rfl, h⟩
      · exact ⟨_, .inr rfl, h⟩
    obtain ⟨word, rfl⟩ := List.getLast?_eq_some_iff.1 hlast
    obtain ⟨rest, rfl⟩ := List.head?_eq_some_iff.1 hhead
    have hbefore : ¬ TakesSign word (e :: sign :: rest) := by
      obtain rfl | rfl := he <;> simp [TakesSign]
    rw [List.append_assoc, List.singleton_append,
      IsNumberWord.numeral_append (fun c hc => hword c (by simp [hc])) hbefore,
      numeral_signed he hsign] at hwhole
    simpa using congrArg List.length hwhole
  · have hbefore : ¬ TakesSign word (e :: sign :: (digits ++ after)) := by
      obtain rfl | rfl := he <;> simp [TakesSign]
    have hlast : ∃ d, digits.getLast? = some d ∧ d.isDigit = true := by
      have hmem := List.getLast_mem hne
      exact ⟨_, List.getLast?_eq_getLast_of_ne_nil hne, hdigits _ hmem⟩
    have hdigit : ∀ more, ¬ TakesSign (more ++ digits) after := by
      obtain ⟨d, hd, hdigit⟩ := hlast
      rintro more ⟨hletter, -⟩
      rw [List.getLast?_append, hd] at hletter
      obtain h | h := hletter <;> cases h <;> cases hdigit
    refine iff_of_true ?_ (by simpa using hdigit (word ++ [e, sign]))
    rw [List.append_assoc, List.cons_append, List.cons_append, hword.numeral_append hbefore,
      numeral_signed he hsign, (isNumberWord_digits hdigits).numeral_append (hdigit []), hends,
      List.append_nil]

end Lexeme

/-! ## Scanning without positions -/

namespace Token

/-- What was scanned, less its position. -/
def content : Scanned → Except SyntaxError.Cause (Symbol × String)
  | .ok token => .ok (token.symbol, token.lexeme)
  | .error e => .error e.cause

/-- What is scanned does not depend on the position at which it is scanned, apart from positions. -/
theorem content_scanAt (p q : Position) (cs : List Char) :
    (scanAt p cs).map content = (scanAt q cs).map content := by
  induction cs using scan_induction generalizing p q with
  | nil => rfl
  | blank c cs hc ih =>
    rw [scanAt_of_blank p hc, scanAt_of_blank q hc]
    exact ih _ _
  | error c cs fault hc hl =>
    rw [scanAt_of_error p hc hl, scanAt_of_error q hc hl]
    rfl
  | read c cs l hc hl ih =>
    rw [scanAt_of_read p hc hl, scanAt_of_read q hc hl, List.map_cons, List.map_cons,
      ih _ (q.advanceAll ((c :: cs).take l.width))]
    rfl

/-- A number literal is scanned whole, as one token, and what follows as if it stood alone: this
holds just if no sign after the literal is taken for that of an exponent. -/
theorem scan_literal_append_iff {literal after : String}
    (hliteral : Lexeme.IsNumberLiteral literal.toList)
    (hafter : ∀ c ∈ after.toList.head?, Lexeme.endsNumber c = true) :
    (scan (literal ++ after)).map content =
        .ok (.number, literal) :: (scan after).map content ↔
      ¬ Lexeme.TakesSign literal.toList after.toList := by
  rw [← hliteral.numeral_eq_iff hafter]
  obtain ⟨c, cs, hcs, hstart⟩ := hliteral.startsNumber
  have hstart := hstart after.toList
  have hscan : scan (literal ++ after) = scanAt .start (c :: (cs ++ after.toList)) := by
    rw [scan_eq, String.toList_append, hcs, List.cons_append]
  rw [hscan, scanAt_of_read _ hstart.isBlank_eq hstart.read_eq, List.map_cons, ← List.cons_append,
    ← hcs]
  constructor
  · intro h
    have htext := (List.cons.inj h).1
    simp only [content, Lexeme.readNumeral, Except.ok.injEq, Prod.mk.injEq, true_and] at htext
    rw [← String.toList_ofList (l := Lexeme.numeral _), htext]
  · intro h
    rw [Lexeme.readNumeral, h]
    dsimp only
    rw [List.drop_left, scan_eq, content_scanAt _ .start]
    simp [content]

/-- A sign after an exponent does not belong to it. -/
theorem scan_literal_append_iff_exponent :
    Lexeme.IsNumberLiteral "1.5e-3".toList ∧
      (∀ c ∈ "-x".toList.head?, Lexeme.endsNumber c = true) ∧
      (scan ("1.5e-3" ++ "-x")).map content =
        .ok (.number, "1.5e-3") :: (scan "-x").map content := by
  have hmantissa : Lexeme.IsMantissa (['1'] ++ '.' :: ['5']) :=
    .mixed (by simp) (by simp) (by simp)
  have hexponent : Lexeme.IsExponent ('e' :: '-' :: ['3']) :=
    .signed (.inl rfl) (.inr rfl) (by simp) (by simp)
  have hliteral : Lexeme.IsNumberLiteral "1.5e-3".toList := by
    simpa using Lexeme.IsNumberLiteral.decimal hmantissa hexponent
  have hafter : ∀ c ∈ "-x".toList.head?, Lexeme.endsNumber c = true := by simp [Lexeme.endsNumber]
  refine ⟨hliteral, hafter, (scan_literal_append_iff hliteral hafter).2 ?_⟩
  simp [Lexeme.TakesSign]

/-- The last digit of a hexadecimal literal is taken for the start of an exponent, so that it is not
scanned alone. -/
theorem scan_hexadecimal_sum :
    ¬ ∀ literal after : String, Lexeme.IsNumberLiteral literal.toList →
      (∀ c ∈ after.toList.head?, Lexeme.endsNumber c = true) →
      (scan (literal ++ after)).map content =
        .ok (.number, literal) :: (scan after).map content := by
  intro h
  have hdigit : ∀ d ∈ ['e'], Lexeme.isHexDigit d = true := by simp [Lexeme.isHexDigit]
  have hliteral : Lexeme.IsNumberLiteral "0xe".toList := by
    simpa using Lexeme.IsNumberLiteral.hexadecimal (.inl rfl) (by simp) hdigit
  have hscan : (scan ("0xe" ++ "+1")).map content =
      [.ok (.number, "0xe+1"), .ok (.endOfFile, "")] := by cbv
  have hclaim := h "0xe" "+1" hliteral (by simp [Lexeme.endsNumber])
  rw [hscan] at hclaim
  simp at hclaim

end Token

end LuaLang
