import Mathlib
import LuaLang.Proofs.Number.Literal
import LuaLang.Proofs.Scan.Steps
import LuaLang.Tree.Printer

/-!
# Lexemes that read back

What names, reserved words, marks, string and number literals are printed as is read back as the
same lexeme, whatever text follows, as long as the next character does not go on with it.

## Main definitions

* `Lexeme.Spelt`: characters that are read as a given lexeme.
* `Lexeme.endsMark`: the characters that do not go on with a mark.

## Main statements

* `Lexeme.spelt_name`, `Lexeme.spelt_word`, `Lexeme.spelt_mark`, `Lexeme.spelt_string`,
  `Lexeme.spelt_number`.
* `Lexeme.Spelt.scanAt_append`: such characters are scanned as one token.
-/

namespace LuaLang.Lexeme

/-- The characters are read as the lexeme if the character after them, if there is one, is among
those that end it. They are all on one line. -/
structure Spelt (cs : List Char) (symbol : Symbol) (text : String) (ends : Char → Bool) : Prop where
  plain : ∀ c ∈ cs, c ≠ '\n' ∧ c ≠ '\r'
  read : ∃ c rest, cs = c :: rest ∧ Number.isBlank c = false ∧
    ∀ after : List Char, (∀ d ∈ after.head?, ends d = true) →
      Lexeme.read c (rest ++ after) = .ok ⟨symbol, text, cs.length⟩

section Spelt

variable {cs : List Char} {symbol : Symbol} {text : String} {ends : Char → Bool}

/-- In front of something that ends it, a lexeme that was spelt is scanned as one token, and what
follows is scanned from its first character. -/
theorem Spelt.scanAt_append (h : Spelt cs symbol text ends) {after : List Char}
    (hafter : ∀ d ∈ after.head?, ends d = true) (p : Position) :
    Token.scanAt p (cs ++ after) =
      .ok ⟨symbol, text, p.line, p.column, (p.advanceAll cs).line⟩ ::
        Token.scanAt (p.advanceAll cs) after := by
  obtain ⟨c, rest, rfl, hblank, hread⟩ := h.read
  have hstep := Token.scanAt_of_read p hblank (hread after hafter)
  rw [← List.cons_append, List.take_left, List.drop_left] at hstep
  exact hstep

theorem Spelt.advanceAll_eq (h : Spelt cs symbol text ends) (p : Position) :
    p.advanceAll cs = ⟨p.line, p.column + cs.length⟩ :=
  Position.advanceAll_of_not_mem (fun hmem => (h.plain '\n' hmem).1 rfl) p

end Spelt

/-! ## Names and words -/

/-- The characters that end a name. -/
def endsName (c : Char) : Bool := !isNameChar c

theorem takeWhile_append_of_ends {p : Char → Bool} {s after : List Char} (hs : ∀ c ∈ s, p c = true)
    (hafter : ∀ d ∈ after.head?, p d = false) : (s ++ after).takeWhile p = s := by
  rw [List.takeWhile_append_of_pos hs]
  cases after with
  | nil => simp
  | cons d after => simp [hafter d rfl]

theorem isNameStart_facts {c : Char} (h : isNameStart c = true) :
    c ≠ '-' ∧ c ≠ '[' ∧ c ≠ '"' ∧ c ≠ '\'' ∧ c.isDigit = false ∧ c ≠ '.' := by
  have hdigit : c.isDigit = false := by
    by_cases hc : c = '_'
    · rw [hc]
      decide
    · simp only [isNameStart, Char.isAlpha, Char.isUpper, Char.isLower, Char.isDigit] at h ⊢
      grind
  refine ⟨?_, ?_, ?_, ?_, hdigit, ?_⟩ <;> rintro rfl <;> exact absurd h (by decide)

theorem isNameChar_facts {c : Char} (h : isNameChar c = true) :
    c ≠ '\n' ∧ c ≠ '\r' ∧ Number.isBlank c = false := by
  refine ⟨?_, ?_, Number.isBlank_eq_false h (by decide)⟩
  · rintro rfl
    exact absurd h (by decide)
  · rintro rfl
    exact absurd h (by decide)

theorem spelt_nameChars {c : Char} {cs : List Char} (hc : isNameStart c = true)
    (hcs : ∀ d ∈ c :: cs, isNameChar d = true) :
    Spelt (c :: cs) ((Symbol.keyword? (String.ofList (c :: cs))).getD .name)
      (String.ofList (c :: cs)) endsName := by
  refine ⟨fun d hd => ⟨(isNameChar_facts (hcs d hd)).1, (isNameChar_facts (hcs d hd)).2.1⟩, c, cs,
    rfl, (isNameChar_facts (hcs c (by simp))).2.2, ?_⟩
  intro after hafter
  obtain ⟨h1, h2, h3, h4, h5, h6⟩ := isNameStart_facts hc
  have htake : (c :: (cs ++ after)).takeWhile isNameChar = c :: cs :=
    takeWhile_append_of_ends (s := c :: cs) hcs fun d hd => by simpa [endsName] using hafter d hd
  simp only [Lexeme.read, h1, h2, h3, h4, h5, h6, hc, decide_false, Bool.false_and, Bool.false_or,
    Bool.false_eq_true, if_false, if_true, readName, htake]
  simp [Nat.add_comm]

theorem spelt_name {text : String} (h : IsName text) :
    Spelt text.toList .name text endsName := by
  obtain ⟨⟨c, cs, htext, hc⟩, hchars, hfree⟩ := h
  have hs := spelt_nameChars hc (htext ▸ hchars)
  rw [← htext, String.ofList_toList, hfree] at hs
  exact hs

theorem spelt_word {s : Symbol} (h : s ∈ Symbol.reserved) :
    Spelt s.text.toList s s.text endsName := by
  have hkey : ∀ s ∈ Symbol.reserved, Symbol.keyword? s.text = some s := by decide
  have hword : ∀ s ∈ Symbol.reserved, (∀ c ∈ s.text.toList.head?, isNameStart c = true) ∧
      s.text.toList ≠ [] ∧ ∀ c ∈ s.text.toList, isNameChar c = true := by
    simp only [Symbol.reserved, List.forall_mem_cons]
    repeat' apply And.intro
    all_goals simp [Symbol.text, Symbol.entry, isNameStart, isNameChar]
  obtain ⟨hstart, hne, hchars⟩ := hword s h
  obtain ⟨c, cs, htext⟩ := List.exists_cons_of_ne_nil hne
  have hs := spelt_nameChars (hstart c (by simp [htext])) (htext ▸ hchars)
  rw [← htext, String.ofList_toList, hkey s h] at hs
  exact hs

/-! ## Marks -/

/-- The characters of a mark. -/
def markChars : Symbol → List Char
  | .dotDotDot => ['.', '.', '.']
  | .dotDot => ['.', '.']
  | .equalEqual => ['=', '=']
  | .tildeEqual => ['~', '=']
  | .lessEqual => ['<', '=']
  | .greaterEqual => ['>', '=']
  | .plus => ['+']
  | .minus => ['-']
  | .star => ['*']
  | .slash => ['/']
  | .percent => ['%']
  | .caret => ['^']
  | .hash => ['#']
  | .tilde => ['~']
  | .less => ['<']
  | .greater => ['>']
  | .equal => ['=']
  | .leftParen => ['(']
  | .rightParen => [')']
  | .leftBrace => ['\x7b']
  | .rightBrace => ['\x7d']
  | .leftBracket => ['[']
  | .rightBracket => [']']
  | .semicolon => [';']
  | .colon => [':']
  | .comma => [',']
  | .dot => ['.']
  | _ => []

theorem toList_text {s : Symbol} (h : s ∈ Symbol.punctuation) : s.text.toList = markChars s := by
  have hall : Symbol.punctuation.map (·.text.toList) = Symbol.punctuation.map markChars := by rfl
  exact List.map_inj_left.1 hall s h

/-- The characters that do not go on with a mark. -/
def endsMark (s : Symbol) (c : Char) : Bool :=
  match s with
  | .minus => c != '-'
  | .leftBracket => c != '[' && c != '='
  | .dot => c != '.' && !c.isDigit
  | .dotDot => c != '.'
  | .equal | .less | .greater | .tilde => c != '='
  | _ => true

/-- A mark that is looked for before another one is not the start of it, and does not go on with it
by a character that ends it. -/
def looksPast (x s : Symbol) : Bool :=
  !(markChars x).isPrefixOf (markChars s) &&
    !((markChars s).isPrefixOf (markChars x) &&
      ((markChars x).drop (markChars s).length).head?.any (endsMark s))

theorem looksPast_of_mem {x s : Symbol} (hs : s ∈ Symbol.punctuation)
    (hx : x ∈ Symbol.punctuation.takeWhile (· != s)) : looksPast x s = true := by
  have hall : (Symbol.punctuation.all fun s =>
      (Symbol.punctuation.takeWhile (· != s)).all (looksPast · s)) = true := by decide +kernel
  exact List.all_eq_true.1 (List.all_eq_true.1 hall s hs) x hx

theorem not_isPrefix_of_looksPast {x s : Symbol} (h : looksPast x s = true) {after : List Char}
    (hafter : ∀ d ∈ after.head?, endsMark s d = true) : ¬markChars x <+: markChars s ++ after := by
  simp only [looksPast, Bool.and_eq_true, Bool.not_eq_true', Bool.and_eq_false_iff] at h
  obtain ⟨hstart, hmore⟩ := h
  intro hx
  have hstart : ¬markChars x <+: markChars s := by
    rw [← List.isPrefixOf_iff_prefix, hstart]
    simp
  obtain hpre | ⟨more, heq⟩ := List.prefix_or_prefix_of_prefix hx (List.prefix_append _ after)
  · exact hstart hpre
  · rw [← heq, List.prefix_append_right_inj] at hx
    cases more with
    | nil =>
      rw [List.append_nil] at heq
      exact hstart (heq ▸ List.prefix_rfl)
    | cons d more =>
      obtain ⟨rest, rfl⟩ := hx
      have hd := hafter d rfl
      obtain hmore | hmore := hmore
      · rw [← heq, List.isPrefixOf_iff_prefix.2 (List.prefix_append _ _)] at hmore
        cases hmore
      · rw [← heq, List.drop_left] at hmore
        simp [hd] at hmore

theorem readMark?_append {s : Symbol} (h : s ∈ Symbol.punctuation) {after : List Char}
    (hafter : ∀ d ∈ after.head?, endsMark s d = true) :
    readMark? (markChars s ++ after) = some ⟨s, s.text, s.text.length⟩ := by
  have hsplit : ∃ more, Symbol.punctuation =
      Symbol.punctuation.takeWhile (· != s) ++ s :: more := by
    have hall : (Symbol.punctuation.all fun s => Symbol.punctuation ==
        Symbol.punctuation.takeWhile (· != s) ++
          s :: (Symbol.punctuation.dropWhile (· != s)).tail) = true := by decide +kernel
    exact ⟨_, beq_iff_eq.1 (List.all_eq_true.1 hall s h)⟩
  obtain ⟨more, hsplit⟩ := hsplit
  have hfind : Symbol.punctuation.find? (·.text.toList.isPrefixOf (markChars s ++ after)) =
      some s := by
    rw [List.find?_eq_some_iff_append]
    refine ⟨by simp [toList_text h], _, more, hsplit, fun x hx => ?_⟩
    have hpunctuation : x ∈ Symbol.punctuation := by
      rw [hsplit]
      exact List.mem_append_left _ hx
    rw [toList_text hpunctuation, Bool.not_eq_true', ← Bool.not_eq_true, List.isPrefixOf_iff_prefix]
    exact not_isPrefix_of_looksPast (looksPast_of_mem h hx) hafter
  rw [readMark?, hfind]
  rfl

/-- What marks start with: only three of them start like a comment, a string or a number. -/
def startsMark (s : Symbol) : List Char → Bool
  | [] => false
  | c :: rest => !Number.isBlank c && c != '"' && c != '\'' && !c.isDigit && !isNameStart c &&
    (c != '-' && c != '[' && (c != '.' || rest.head? == some '.') ||
      rest.isEmpty && (s == .minus && c == '-' || s == .leftBracket && c == '[' ||
        s == .dot && c == '.'))

theorem mark_facts {s : Symbol} (h : s ∈ Symbol.punctuation) :
    ∃ c rest, markChars s = c :: rest ∧ (∀ d ∈ c :: rest, d ≠ '\n' ∧ d ≠ '\r') ∧
      (Number.isBlank c = false ∧ c ≠ '"' ∧ c ≠ '\'' ∧ c.isDigit = false ∧
        isNameStart c = false) ∧
      ((c ≠ '-' ∧ c ≠ '[' ∧ (c = '.' → rest.head? = some '.')) ∨
        (rest = [] ∧
          (s = .minus ∧ c = '-' ∨ s = .leftBracket ∧ c = '[' ∨ s = .dot ∧ c = '.'))) := by
  have hall : (Symbol.punctuation.all fun s => startsMark s (markChars s) &&
      (markChars s).all fun c => c != '\n' && c != '\r') = true := by decide +kernel
  have hs := List.all_eq_true.1 hall s h
  rw [Bool.and_eq_true] at hs
  obtain ⟨hstart, hplain⟩ := hs
  cases hchars : markChars s with
  | nil =>
    rw [hchars] at hstart
    cases hstart
  | cons c rest =>
    rw [hchars] at hstart hplain
    refine ⟨c, rest, rfl, ?_, ?_⟩
    · simpa using hplain
    · simp only [startsMark, Bool.and_eq_true, Bool.or_eq_true, Bool.not_eq_true', bne_iff_ne,
        beq_iff_eq, List.isEmpty_iff] at hstart
      tauto

theorem spelt_mark {s : Symbol} (h : s ∈ Symbol.punctuation) :
    Spelt (markChars s) s s.text (endsMark s) := by
  obtain ⟨c, rest, hchars, hplain, ⟨hblank, hq, hq', hdigit, hname⟩, hstart⟩ := mark_facts h
  refine ⟨hchars ▸ hplain, c, rest, hchars, hblank, fun after hafter => ?_⟩
  have hmark := readMark?_append h hafter
  have hlength : s.text.length = (markChars s).length := by
    rw [← toList_text h, String.length_toList]
  rw [hchars, List.cons_append] at hmark
  -- No comment, string or number starts here.
  obtain ⟨hfirst, hsecond, hthird⟩ : (c = '-' && (rest ++ after).head? = some '-') = false ∧
      (c = '[' && ((rest ++ after).head? = some '[' || (rest ++ after).head? = some '=')) = false ∧
      (c = '.' && (rest ++ after).head?.any Char.isDigit) = false := by
    obtain ⟨hminus, hbracket, hdot⟩ | ⟨rfl, hs⟩ := hstart
    · refine ⟨by simp [hminus], by simp [hbracket], ?_⟩
      by_cases hc : c = '.'
      · obtain ⟨rest', rfl⟩ := List.head?_eq_some_iff.1 (hdot hc)
        simp
      · simp [hc]
    · cases after with
      | nil => simp
      | cons d after =>
        have hd := hafter d rfl
        obtain ⟨rfl, rfl⟩ | ⟨rfl, rfl⟩ | ⟨rfl, rfl⟩ := hs <;> simp_all [endsMark]
  rw [Lexeme.read, hfirst, hsecond, hthird]
  simp only [hq, hq', hdigit, hname, decide_false, Bool.or_self, Bool.false_eq_true, if_false,
    hmark, hlength]

/-! ## String literals -/

/-- The characters of a string literal between its quotes. -/
def literalChars (text : String) : List Char :=
  text.toList.flatMap fun c => (literalChar c).toList

theorem toList_stringLiteral (text : String) :
    (stringLiteral text).toList = '"' :: (literalChars text ++ ['"']) := by
  have hfold : ∀ (cs : List Char) (out : String),
      (cs.foldl (fun out c => out ++ literalChar c) out).toList =
        out.toList ++ cs.flatMap fun c => (literalChar c).toList := by
    intro cs
    induction cs with
    | nil => simp
    | cons c cs ih =>
      intro out
      simp [ih]
  simp [stringLiteral, hfold, literalChars]

/-- The digits of a code, filled up to three, are those that an escape of that code has. -/
def hasThreeDigits (n : Nat) : Bool :=
  match Number.padLeft 3 (Nat.toDigits 10 n) with
  | [a, b, c] => a.isDigit && b.isDigit && c.isDigit && Number.decimalValue [a, b, c] == n
  | _ => false

theorem threeDigits_facts {n : Nat} (h : n < 128) :
    ∃ a b c, (threeDigits n).toList = [a, b, c] ∧
      (a.isDigit = true ∧ b.isDigit = true ∧ c.isDigit = true) ∧
      Number.decimalValue [a, b, c] = n := by
  have hall : (List.range 128).all hasThreeDigits = true := by decide +kernel
  have hn := List.all_eq_true.1 hall n (List.mem_range.2 h)
  rw [threeDigits, String.toList_ofList]
  unfold hasThreeDigits at hn
  split at hn
  · next a b c hdigits =>
    simp only [Bool.and_eq_true, beq_iff_eq] at hn
    exact ⟨a, b, c, hdigits, ⟨hn.1.1.1, hn.1.1.2, hn.1.2⟩, hn.2⟩
  · cases hn

/-- The ways in which a character is written in a string literal. -/
theorem literalChar_cases (c : Char) :
    (∃ e, (literalChar c).toList = ['\\', e] ∧ e.isDigit = false ∧ e ≠ '\n' ∧ e ≠ '\r' ∧
      simpleEscape? e = some c) ∨
    (∃ d e f, (literalChar c).toList = ['\\', d, e, f] ∧
      (d.isDigit = true ∧ e.isDigit = true ∧ f.isDigit = true) ∧
      Number.decimalValue [d, e, f] = c.toNat ∧ c.toNat < 256) ∨
    ((literalChar c).toList = [c] ∧ c ≠ '\n' ∧ c ≠ '\r' ∧ c ≠ '\\' ∧ c ≠ '"') := by
  unfold literalChar
  split
  · exact .inl ⟨'"', by simp, by decide, by decide, by decide, rfl⟩
  · exact .inl ⟨'\\', by simp, by decide, by decide, by decide, rfl⟩
  · exact .inl ⟨'n', by simp, by decide, by decide, by decide, rfl⟩
  · exact .inl ⟨'r', by simp, by decide, by decide, by decide, rfl⟩
  · exact .inl ⟨'t', by simp, by decide, by decide, by decide, rfl⟩
  · next hquote hback hn hr ht =>
    split
    · next hcontrol =>
      obtain ⟨d, e, f, hchars, hdigits, hvalue⟩ := threeDigits_facts (n := c.toNat) (by omega)
      exact .inr (.inl ⟨d, e, f, by simp [hchars], hdigits, hvalue, by omega⟩)
    · exact .inr (.inr ⟨by simp, hn, hr, hback, hquote⟩)

theorem quoted_literalChar (c : Char) (rest : List Char) (text : String) (width : Nat) :
    quoted '"' ((literalChar c).toList ++ rest) 0 text width =
      quoted '"' rest 0 (text.push c) (width + (literalChar c).toList.length) := by
  obtain ⟨e, hchars, hdigit, -, -, hescape⟩ | ⟨d, e, f, hchars, ⟨hd, he, hf⟩, hvalue, hlt⟩ |
    ⟨hchars, hn, -, hb, hq⟩ := literalChar_cases c
  · rw [hchars]
    simp [quoted, readEscape, hdigit, hescape]
  · rw [hchars]
    simp [quoted, readEscape, hd, he, hf, hvalue, hlt, Char.ofNat_toNat]
  · rw [hchars]
    simp [quoted, hn, hb, hq]

theorem quoted_literalChars (cs rest : List Char) (text : String) (width : Nat) :
    quoted '"' ((cs.flatMap fun c => (literalChar c).toList) ++ '"' :: rest) 0 text width =
      .ok ⟨.string, text ++ String.ofList cs,
        width + (cs.flatMap fun c => (literalChar c).toList).length + 1⟩ := by
  induction cs generalizing text width with
  | nil => simp [quoted]
  | cons c cs ih =>
    rw [List.flatMap_cons, List.append_assoc, quoted_literalChar, ih]
    have htext : text.push c ++ String.ofList cs = text ++ String.ofList (c :: cs) := by
      rw [← String.toList_inj]
      simp
    rw [htext, List.length_append, ← Nat.add_assoc]

theorem spelt_string (text : String) :
    Spelt (stringLiteral text).toList .string text fun _ => true := by
  rw [toList_stringLiteral]
  refine ⟨?_, '"', literalChars text ++ ['"'], rfl, by decide, fun after _ => ?_⟩
  · intro d hd
    simp only [List.mem_cons, List.mem_append, literalChars, List.mem_flatMap, List.not_mem_nil,
      or_false] at hd
    obtain rfl | ⟨c, -, hd⟩ | rfl := hd
    · decide
    · obtain ⟨e, hchars, hdigit, hn, hr, -⟩ | ⟨a, b, e, hchars, hdigits, -⟩ |
        ⟨hchars, hn, hr, -⟩ := literalChar_cases c <;>
        rw [hchars] at hd
      · simp only [List.mem_cons, List.not_mem_nil, or_false] at hd
        obtain rfl | rfl := hd
        · decide
        · exact ⟨hn, hr⟩
      · have hdigit : ∀ x : Char, x.isDigit = true → x ≠ '\n' ∧ x ≠ '\r' := by
          intro x hx
          constructor <;> rintro rfl <;> cases hx
        simp only [List.mem_cons, List.not_mem_nil, or_false] at hd
        obtain rfl | rfl | rfl | rfl := hd
        · decide
        · exact hdigit _ hdigits.1
        · exact hdigit _ hdigits.2.1
        · exact hdigit _ hdigits.2.2
      · simp only [List.mem_cons, List.not_mem_nil, or_false] at hd
        rw [hd]
        exact ⟨hn, hr⟩
    · decide
  · rw [List.append_assoc, List.singleton_append, Lexeme.read]
    simp only [show ('"' = '-') = False by decide, show ('"' = '[') = False by decide,
      decide_false, Bool.false_and, Bool.false_eq_true, if_false, decide_true, Bool.true_or,
      if_true]
    rw [literalChars, quoted_literalChars]
    simp [Nat.add_comm]

/-! ## Numbers -/

/-- The characters that end a number. -/
def endsNumber (c : Char) : Bool := !(c.isAlphanum || c = '.' || c = '_')

/-- Characters that a number takes up as a whole, whatever follows. -/
def IsNumeral (cs : List Char) : Prop :=
  ∀ after, numeral (cs ++ after) = cs ++ numeral after

theorem IsNumeral.append {as bs : List Char} (ha : IsNumeral as) (hb : IsNumeral bs) :
    IsNumeral (as ++ bs) := by
  intro after
  rw [List.append_assoc, ha, hb, List.append_assoc]

theorem isNumeral_singleton {c : Char} (h : (c.isAlphanum || c = '.' || c = '_') = true)
    (he : c ≠ 'e' ∧ c ≠ 'E') : IsNumeral [c] := by
  intro after
  cases after with
  | nil =>
    rw [List.append_nil, numeral, numeral, if_pos h]
    rfl
  | cons d after =>
    rw [List.singleton_append, numeral, if_neg (by simp [he.1, he.2]), if_pos h]
    rfl

theorem isNumeral_digits {ds : List Char} (h : ∀ d ∈ ds, d.isDigit = true) : IsNumeral ds := by
  induction ds with
  | nil => exact fun after => rfl
  | cons d ds ih =>
    have hd := h d (by simp)
    have he : d ≠ 'e' ∧ d ≠ 'E' := by constructor <;> rintro rfl <;> cases hd
    exact (isNumeral_singleton (by simp [Char.isAlphanum, hd]) he).append
      (ih fun c hc => h c (List.mem_cons_of_mem d hc))

/-- An exponent is taken up with its sign. -/
theorem isNumeral_exponent (e : ℤ) : IsNumeral ('e' :: (toString e).toList) := by
  have digits : ∀ n : Nat, IsNumeral (Nat.toDigits 10 n) := fun n =>
    isNumeral_digits fun d hd => Number.isDigit_toDigits hd
  cases e with
  | ofNat n =>
    have htext : (toString (Int.ofNat n)).toList = Nat.toDigits 10 n :=
      Number.toList_toString_natCast n
    obtain ⟨c, cs, hcs, hdigits⟩ := Number.toDigits_eq_cons n
    have hc := hdigits c (by simp)
    have hsign : c ≠ '+' ∧ c ≠ '-' := by constructor <;> rintro rfl <;> cases hc
    intro after
    have hrest := digits n after
    rw [hcs] at hrest
    rw [htext, hcs, List.cons_append, List.cons_append, numeral, if_pos (by rfl),
      if_neg (by simp [hsign.1, hsign.2]), ← List.cons_append, hrest]
    rfl
  | negSucc n =>
    intro after
    rw [Number.toList_toString_negSucc, List.cons_append, List.cons_append, numeral,
      if_pos (by rfl), if_pos (by rfl), digits]
    rfl

/-- A number takes up no blanks, so it is all on one line. -/
theorem isBlank_of_mem_numeral {cs : List Char} {c : Char} (h : c ∈ numeral cs) :
    Number.isBlank c = false := by
  have hplain : ∀ c : Char, (c.isAlphanum || c = '.' || c = '_') = true →
      Number.isBlank c = false := fun c hc =>
    Number.isBlank_eq_false (p := fun c => c.isAlphanum || c = '.' || c = '_') hc (by decide)
  fun_induction numeral cs with
  | case1 => cases h
  | case2 d hd =>
    rw [List.mem_singleton] at h
    exact hplain c (h ▸ hd)
  | case3 => cases h
  | case4 d e cs hd he ih =>
    simp only [Bool.or_eq_true, decide_eq_true_eq] at hd he
    rcases List.mem_cons.1 h with rfl | h
    · obtain rfl | rfl := hd <;> decide
    rcases List.mem_cons.1 h with rfl | h
    · obtain rfl | rfl := he <;> decide
    · exact ih h
  | case5 d e cs hd he ih =>
    simp only [Bool.or_eq_true, decide_eq_true_eq] at hd
    rcases List.mem_cons.1 h with rfl | h
    · obtain rfl | rfl := hd <;> decide
    · exact ih h
  | case6 d e cs hd he ih =>
    rcases List.mem_cons.1 h with rfl | h
    · exact hplain _ he
    · exact ih h
  | case7 => cases h

theorem numeral_chars {cs : List Char} {c : Char} (h : c ∈ numeral cs) : c ≠ '\n' ∧ c ≠ '\r' := by
  have hblank := isBlank_of_mem_numeral h
  constructor <;> rintro rfl <;> cases hblank

/-- A literal starts with a digit and is a numeral. -/
theorem isNumeral_numberLiteral {x : Number} (h : Number.IsLiteral x) :
    ∃ d cs, (numberLiteral x).toList = d :: cs ∧ d.isDigit = true ∧ IsNumeral (d :: cs) := by
  have point : IsNumeral ['.'] := isNumeral_singleton (by decide) (by decide)
  have scientific : ∀ s : Decimal, ∃ d cs, s.toScientific.toList = d :: cs ∧ d.isDigit = true ∧
      IsNumeral (d :: cs) := by
    intro s
    obtain ⟨d, ds, hdigits, hall⟩ := Number.toDigits_eq_cons s.coefficient
    have hds : s.digits = d :: ds := hdigits
    have hsingle : IsNumeral [d] := isNumeral_digits (by simpa using hall d (by simp))
    have hexponent := isNumeral_exponent s.leadingExponent
    cases ds with
    | nil =>
      refine ⟨d, 'e' :: (toString s.leadingExponent).toList, ?_, hall d (by simp),
        hsingle.append hexponent⟩
      simp [Decimal.toScientific, hds]
    | cons c ds =>
      have hmore : IsNumeral (c :: ds) :=
        isNumeral_digits fun x hx => hall x (List.mem_cons_of_mem d hx)
      refine ⟨d, '.' :: (c :: ds ++ 'e' :: (toString s.leadingExponent).toList), ?_,
        hall d (by simp), hsingle.append (point.append (hmore.append hexponent))⟩
      simp [Decimal.toScientific, hds]
  obtain rfl | ⟨rank, rfl⟩ := h
  · refine ⟨'1', 'e' :: (toString (500 : ℤ)).toList, by cbv, by decide, ?_⟩
    have hone : IsNumeral ['1'] := isNumeral_digits (by simp)
    exact hone.append (isNumeral_exponent 500)
  · rw [numberLiteral]
    split
    · next i hi =>
      split
      · obtain ⟨n, rfl⟩ : ∃ n : Nat, i = n := Int.eq_ofNat_of_zero_le
          (by exact_mod_cast Number.toInt?_finite rank hi ▸ Number.magnitude_nonneg rank)
        obtain ⟨d, ds, hdigits, hall⟩ := Number.toDigits_eq_cons n
        exact ⟨d, ds, by rw [Number.toList_toString_natCast, hdigits], hall d (by simp),
          isNumeral_digits hall⟩
      · exact scientific _
    · exact scientific _

theorem numeral_of_ends {after : List Char} (h : ∀ d ∈ after.head?, endsNumber d = true) :
    numeral after = [] := by
  cases after with
  | nil => rfl
  | cons c after =>
    have hc := h c rfl
    simp only [endsNumber, Bool.not_eq_true'] at hc
    have he : c ≠ 'e' ∧ c ≠ 'E' := by
      constructor <;> rintro rfl <;> exact absurd hc (by decide)
    cases after with
    | nil => rw [numeral, if_neg (by simp [hc])]
    | cons e after => rw [numeral, if_neg (by simp [he.1, he.2]), if_neg (by simp [hc])]

theorem StartsNumber.isBlank_eq {c : Char} {cs : List Char} (h : StartsNumber c cs) :
    Number.isBlank c = false := by
  obtain h | ⟨rfl, -⟩ := h
  · exact Number.isBlank_eq_false h (by decide)
  · decide

theorem StartsNumber.read_eq {c : Char} {cs : List Char} (h : StartsNumber c cs) :
    Lexeme.read c cs = .ok (readNumeral (c :: cs)) := by
  have hne : c ≠ '-' ∧ c ≠ '[' ∧ c ≠ '"' ∧ c ≠ '\'' := by
    refine ⟨?_, ?_, ?_, ?_⟩ <;> rintro rfl <;> obtain h | ⟨h, -⟩ := h <;> cases h
  have hstart : (c.isDigit || c = '.' && cs.head?.any Char.isDigit) = true := by
    simpa [StartsNumber] using h
  simp [Lexeme.read, hne, hstart]

theorem spelt_number {x : Number} (h : Number.IsLiteral x) :
    Spelt (numberLiteral x).toList .number (numberLiteral x) endsNumber := by
  obtain ⟨d, cs, htext, hd, hnumeral⟩ := isNumeral_numberLiteral h
  have hwhole := hnumeral []
  rw [List.append_nil, numeral, List.append_nil] at hwhole
  have hstart : ∀ cs, StartsNumber d cs := fun _ => .inl hd
  refine ⟨?_, d, cs, htext, (hstart cs).isBlank_eq, fun after hafter => ?_⟩
  · rw [htext, ← hwhole]
    exact fun c hc => numeral_chars hc
  · have htake := hnumeral after
    rw [numeral_of_ends hafter, List.append_nil, List.cons_append] at htake
    rw [(hstart _).read_eq, readNumeral, htake, ← htext, String.ofList_toList]

end LuaLang.Lexeme
