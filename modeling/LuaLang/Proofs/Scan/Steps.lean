import Mathlib
import LuaLang.Token.Scan
import LuaLang.Proofs.Scan.Closers

/-!
# Scanning step by step

The bound on the number of lexemes is never reached, so scanning can be described without it: blanks
are passed, and a lexeme is followed by what is scanned after it. What is scanned are tokens that
were read from the source, and at its end the end of the file or an error.

## Main definitions

* `Token.scanAt`: what is scanned from a position on.
* `Lexeme.IsName`: the texts that are names.
* `Token.IsRead`: a token that was read from some source.

## Main statements

* `Token.scanAt_of_read`, `Token.scanAt_of_blank`, `Token.scanAt_of_error`: one step.
* `Token.scan_induction`: what is left of a source after each step.
* `Token.scanAt_eq_append`: all of what is scanned.
* `Lexeme.read_cases`: the lexemes that can be read.
-/

namespace LuaLang

namespace Lexeme

/-! ## What a lexeme can be -/

theorem quoted_eq_ok {delimiter : Char} {cs : List Char} {skip : Nat} {text : String}
    {width : Nat} {l : Lexeme} (h : quoted delimiter cs skip text width = .ok l) :
    l.symbol = .string ∧ width < l.width := by
  induction cs generalizing skip text width with
  | nil =>
    cases skip <;> cases h
  | cons c cs ih =>
    cases skip with
    | succ skip => exact ih h
    | zero =>
      rw [quoted] at h
      split at h
      · cases h
      · split at h
        · split at h
          · next e taken _ =>
            obtain ⟨hs, hw⟩ := ih h
            exact ⟨hs, by omega⟩
          · cases h
        · split at h
          · cases h
            exact ⟨rfl, Nat.lt_succ_self width⟩
          · obtain ⟨hs, hw⟩ := ih h
            exact ⟨hs, by omega⟩

theorem bracketBody_eq_some {closer cs : List Char} {text : String} {width : Nat}
    {r : String × Nat} (h : bracketBody closer cs text width = some r) : width < r.2 := by
  induction cs generalizing text width with
  | nil => cases h
  | cons c cs ih =>
    rw [bracketBody] at h
    split at h
    · cases h
      change width < width + 1 + closer.length
      omega
    · have := ih h
      omega

theorem readBracketed_eq_ok {symbol : Symbol} {level opened : Nat} {cs : List Char} {l : Lexeme}
    (h : readBracketed symbol level opened cs = .ok l) : l.symbol = symbol ∧ 0 < l.width := by
  rw [readBracketed_eq] at h
  split at h
  · next text width hbody =>
    cases h
    have hw := bracketBody_eq_some hbody
    exact ⟨rfl, show 0 < width by change _ < width at hw; omega⟩
  · cases h

theorem readComment_eq_ok {cs : List Char} {l : Lexeme} (h : readComment cs = .ok l) :
    l.symbol = .comment ∧ 0 < l.width := by
  unfold readComment at h
  split at h
  · split at h
    · exact readBracketed_eq_ok h
    · cases h
      exact ⟨rfl, Nat.succ_pos _⟩
  · cases h
    exact ⟨rfl, Nat.succ_pos _⟩

theorem readLongString_eq_ok {cs : List Char} {l : Lexeme} (h : readLongString cs = .ok l) :
    l.symbol = .string ∧ 0 < l.width := by
  unfold readLongString at h
  split at h
  · exact readBracketed_eq_ok h
  · cases h

/-- A character that a number can start with, in front of the others. -/
def StartsNumber (c : Char) (cs : List Char) : Prop :=
  c.isDigit = true ∨ c = '.' ∧ cs.head?.any Char.isDigit = true

theorem numeral_ne_nil {c : Char} {cs : List Char} (h : c.isAlphanum = true ∨ c = '.') :
    ∃ rest, numeral (c :: cs) = c :: rest := by
  have hc : (c.isAlphanum || decide (c = '.') || decide (c = '_')) = true := by
    obtain h | h := h <;> simp [h]
  cases cs with
  | nil =>
    rw [numeral, if_pos hc]
    exact ⟨[], rfl⟩
  | cons d cs =>
    rw [numeral]
    split
    · split
      · exact ⟨_, rfl⟩
      · exact ⟨_, rfl⟩
    · exact ⟨_, rfl⟩

theorem StartsNumber.numeral_eq {c : Char} {cs : List Char} (h : StartsNumber c cs) :
    ∃ rest, numeral (c :: cs) = c :: rest := by
  refine numeral_ne_nil ?_
  obtain h | h := h
  · exact .inl (by simp [Char.isAlphanum, h])
  · exact .inr h.1

/-- The lexemes that can be read: comments and strings, numbers, names and words, and marks. -/
theorem read_cases {c : Char} {cs : List Char} {l : Lexeme} (h : read c cs = .ok l) :
    ((l.symbol = .comment ∨ l.symbol = .string) ∧ 0 < l.width) ∨
      (StartsNumber c cs ∧ l = readNumeral (c :: cs)) ∨
      (isNameStart c = true ∧ l = readName (c :: cs)) ∨
      ∃ s ∈ Symbol.punctuation, l = ⟨s, s.text, s.text.length⟩ := by
  unfold read at h
  split at h
  · obtain ⟨hs, hw⟩ := readComment_eq_ok h
    exact .inl ⟨.inl hs, hw⟩
  split at h
  · obtain ⟨hs, hw⟩ := readLongString_eq_ok h
    exact .inl ⟨.inr hs, hw⟩
  split at h
  · obtain ⟨hs, hw⟩ := quoted_eq_ok h
    exact .inl ⟨.inr hs, by omega⟩
  split at h
  · next hn =>
    cases h
    refine .inr (.inl ⟨?_, rfl⟩)
    simpa [StartsNumber] using hn
  split at h
  · next hn =>
    cases h
    exact .inr (.inr (.inl ⟨hn, rfl⟩))
  split at h
  · next mark hmark =>
    cases h
    obtain ⟨s, hs, rfl⟩ := Option.map_eq_some_iff.1 hmark
    exact .inr (.inr (.inr ⟨s, List.mem_of_find?_eq_some hs, rfl⟩))
  · cases h

/-- The texts that are names: they are made of letters, digits and underscores, do not start with a
digit, and are not reserved. -/
structure IsName (text : String) : Prop where
  start : ∃ c cs, text.toList = c :: cs ∧ isNameStart c = true
  chars : ∀ c ∈ text.toList, isNameChar c = true
  free : Symbol.keyword? text = none

theorem isNameChar_of_isNameStart {c : Char} (h : isNameStart c = true) : isNameChar c = true := by
  unfold isNameStart at h
  unfold isNameChar Char.isAlphanum
  grind

theorem readName_width_pos {c : Char} (h : isNameStart c = true) (cs : List Char) :
    0 < (readName (c :: cs)).width := by
  simp [readName, isNameChar_of_isNameStart h]

theorem isName_of_readName {c : Char} {cs : List Char} (h : isNameStart c = true)
    (hname : (readName (c :: cs)).symbol = .name) : IsName (readName (c :: cs)).text := by
  have hchars : (readName (c :: cs)).text.toList = c :: cs.takeWhile isNameChar := by
    simp [readName, isNameChar_of_isNameStart h]
  refine ⟨⟨c, _, hchars, h⟩, ?_, ?_⟩
  · intro d hd
    simp only [readName, String.toList_ofList] at hd
    exact List.mem_takeWhile_imp hd
  · rw [readName] at hname
    change (Symbol.keyword? (readName (c :: cs)).text).getD .name = .name at hname
    cases hk : Symbol.keyword? (readName (c :: cs)).text with
    | none => rfl
    | some s =>
      rw [hk] at hname
      have hs : s = .name := hname
      have := List.mem_of_find?_eq_some hk
      rw [hs] at this
      exact absurd this (by decide)

theorem read_width_pos {c : Char} {cs : List Char} {l : Lexeme} (h : read c cs = .ok l) :
    0 < l.width := by
  obtain ⟨-, hw⟩ | ⟨hn, rfl⟩ | ⟨hn, rfl⟩ | ⟨s, hs, rfl⟩ := read_cases h
  · exact hw
  · obtain ⟨rest, hrest⟩ := hn.numeral_eq
    simp [readNumeral, hrest]
  · exact readName_width_pos hn cs
  · have hall : ∀ s ∈ Symbol.punctuation, 0 < s.text.length := by decide
    exact hall s hs

end Lexeme

/-! ## Positions -/

namespace Position

@[simp] theorem advanceAll_cons (p : Position) (c : Char) (cs : List Char) :
    p.advanceAll (c :: cs) = (p.advance c).advanceAll cs := rfl

@[simp] theorem advanceAll_append (p : Position) (as bs : List Char) :
    p.advanceAll (as ++ bs) = (p.advanceAll as).advanceAll bs := by
  rw [advanceAll, List.foldl_append]
  rfl

/-- Characters of one line move the column only. -/
theorem advanceAll_of_not_mem {cs : List Char} (h : '\n' ∉ cs) (p : Position) :
    p.advanceAll cs = ⟨p.line, p.column + cs.length⟩ := by
  induction cs generalizing p with
  | nil => rfl
  | cons c cs ih =>
    obtain ⟨hc, hcs⟩ : c ≠ '\n' ∧ '\n' ∉ cs := by simpa [eq_comm] using h
    rw [advanceAll_cons, ih hcs, advance, if_neg hc, List.length_cons, Nat.add_assoc,
      Nat.add_comm 1]

end Position

namespace Token

/-! ## Steps -/

/-- What is scanned from a position on. -/
def scanAt (p : Position) (cs : List Char) : List Scanned :=
  scanFrom (cs.length + 1) p cs []

theorem scan_eq (source : String) : scan source = scanAt .start source.toList := rfl

theorem scanFrom_eq_append (fuel : Nat) (p : Position) (cs : List Char) (found : List Scanned) :
    scanFrom fuel p cs found = found.reverse ++ scanFrom fuel p cs [] := by
  induction fuel generalizing p cs found with
  | zero => simp [scanFrom]
  | succ fuel ih =>
    simp only [scanFrom]
    split
    · simp
    · split
      · simp
      · rw [ih, ih _ _ [_]]
        simp

theorem length_drop_lt {c : Char} {cs : List Char} {l : Lexeme} (h : Lexeme.read c cs = .ok l) :
    ((c :: cs).drop l.width).length < (c :: cs).length := by
  have hw := Lexeme.read_width_pos h
  simp only [List.length_drop, List.length_cons]
  omega

theorem scanFrom_eq_of_length_lt {m n : Nat} (p : Position) {cs : List Char}
    (found : List Scanned) (hm : cs.length < m) (hn : cs.length < n) :
    scanFrom m p cs found = scanFrom n p cs found := by
  induction m generalizing n p cs found with
  | zero => omega
  | succ m ih =>
    obtain ⟨n, rfl⟩ : ∃ k, n = k + 1 := ⟨n - 1, by omega⟩
    have hrest : (cs.dropWhile Number.isBlank).length ≤ cs.length :=
      (List.dropWhile_suffix _).length_le
    simp only [scanFrom, List.span_eq_takeWhile_dropWhile]
    split
    · rfl
    · next c rest hc =>
      rw [hc] at hrest
      split
      · rfl
      · next l hl =>
        have hdrop := length_drop_lt hl
        rw [hc]
        exact ih _ _ (by omega) (by omega)

theorem scanScript_eq_scan {text : String} (h : text.toList.head? ≠ some '#') :
    scanScript text = scan text := by
  unfold scanScript
  dsimp only
  split
  · next hcs => exact absurd (by rw [hcs]; rfl) h
  · rfl

/-- A first line for the system is passed over, and what follows it is scanned. -/
theorem scanScript_of_hash {text : String} (h : text.toList.head? = some '#') :
    scanScript text =
      scanAt (Position.start.advanceAll (text.toList.takeWhile (· != '\n')))
        (text.toList.drop (text.toList.takeWhile (· != '\n')).length) := by
  unfold scanScript
  dsimp only
  split
  · refine scanFrom_eq_of_length_lt _ _ ?_ (Nat.lt_succ_self _)
    rw [List.length_drop]
    omega
  · next hne =>
    obtain ⟨rest, hrest⟩ := List.head?_eq_some_iff.1 h
    exact absurd hrest (hne rest)

/-- What is scanned of a script, too, is scanned from some position on. -/
theorem scanScript_eq (source : String) : ∃ p cs, scanScript source = scanAt p cs := by
  by_cases h : source.toList.head? = some '#'
  · exact ⟨_, _, scanScript_of_hash h⟩
  · exact ⟨_, _, scanScript_eq_scan h⟩

theorem scanAt_of_blank (p : Position) {c : Char} (hc : Number.isBlank c = true)
    (cs : List Char) : scanAt p (c :: cs) = scanAt (p.advance c) cs := by
  have hstep : scanFrom (cs.length + 2) p (c :: cs) [] =
      scanFrom (cs.length + 2) (p.advance c) cs [] := by
    simp only [scanFrom, List.span_eq_takeWhile_dropWhile, List.takeWhile_cons,
      List.dropWhile_cons, hc, if_true, Position.advanceAll, List.foldl_cons]
  rw [scanAt, scanAt, List.length_cons, hstep]
  exact scanFrom_eq_of_length_lt _ _ (by omega) (by omega)

theorem scanAt_of_read (p : Position) {c : Char} (hc : Number.isBlank c = false) {cs : List Char}
    {l : Lexeme} (h : Lexeme.read c cs = .ok l) :
    scanAt p (c :: cs) =
      .ok ⟨l.symbol, l.text, p.line, p.column, (p.advanceAll ((c :: cs).take l.width)).line⟩ ::
        scanAt (p.advanceAll ((c :: cs).take l.width)) ((c :: cs).drop l.width) := by
  have hdrop := length_drop_lt h
  rw [scanAt, scanFrom]
  simp only [List.span_eq_takeWhile_dropWhile, List.takeWhile_cons, List.dropWhile_cons, hc,
    Bool.false_eq_true, if_false, Position.advanceAll, List.foldl_nil, h]
  rw [scanFrom_eq_append, List.reverse_singleton, List.singleton_append, List.length_cons]
  congr 1
  exact scanFrom_eq_of_length_lt _ _ (by simpa using hdrop) (by omega)

theorem scanAt_of_error (p : Position) {c : Char} (hc : Number.isBlank c = false) {cs : List Char}
    {fault : Lexeme.Fault} (h : Lexeme.read c cs = .error fault) :
    scanAt p (c :: cs) = [.error ⟨fault.cause, (p.advanceAll ((c :: cs).take fault.offset)).line,
      (p.advanceAll ((c :: cs).take fault.offset)).column⟩] := by
  rw [scanAt, scanFrom]
  simp only [List.span_eq_takeWhile_dropWhile, List.takeWhile_cons, List.dropWhile_cons, hc,
    Bool.false_eq_true, if_false, Position.advanceAll, List.foldl_nil, h]
  rfl

/-- What is scanned at is the end of the source, a blank, what no lexeme can be read from, or a
lexeme, and after a blank or a lexeme scanning goes on with what is left. -/
@[elab_as_elim]
theorem scan_induction {motive : List Char → Prop} (cs : List Char) (nil : motive [])
    (blank : ∀ c cs, Number.isBlank c = true → motive cs → motive (c :: cs))
    (error : ∀ c cs fault, Number.isBlank c = false → Lexeme.read c cs = .error fault →
      motive (c :: cs))
    (read : ∀ c cs l, Number.isBlank c = false → Lexeme.read c cs = .ok l →
      motive ((c :: cs).drop l.width) → motive (c :: cs)) : motive cs := by
  induction hn : cs.length using Nat.strong_induction_on generalizing cs with
  | _ n ih =>
    cases cs with
    | nil => exact nil
    | cons c cs =>
      cases hc : Number.isBlank c with
      | true => exact blank c cs hc (ih cs.length (by simp [← hn]) cs rfl)
      | false =>
        cases hl : Lexeme.read c cs with
        | error fault => exact error c cs fault hc hl
        | ok l => exact read c cs l hc hl (ih _ (hn ▸ length_drop_lt hl) _ rfl)

/-! ## All that is scanned -/

/-- A token that was read from some source. -/
def IsRead (token : Token) : Prop :=
  ∃ c cs l, Lexeme.read c cs = .ok l ∧ token.symbol = l.symbol ∧ token.lexeme = l.text

/-- What ends a scan: the end of the file, or an error. -/
def IsScanEnd : Scanned → Prop
  | .ok token => token.symbol = .endOfFile
  | .error _ => True

theorem scanAt_eq_append (p : Position) (cs : List Char) :
    ∃ (tokens : List Token) (last : Scanned), scanAt p cs = tokens.map .ok ++ [last] ∧
      (∀ token ∈ tokens, token.IsRead) ∧ IsScanEnd last := by
  induction cs using scan_induction generalizing p with
  | nil => exact ⟨[], _, rfl, by simp, rfl⟩
  | blank c cs hc ih =>
    rw [scanAt_of_blank p hc]
    exact ih _
  | error c cs fault hc hl => exact ⟨[], _, scanAt_of_error p hc hl, by simp, trivial⟩
  | read c cs l hc hl ih =>
    obtain ⟨tokens, last, hscan, hread, hend⟩ := ih (p.advanceAll ((c :: cs).take l.width))
    rw [scanAt_of_read p hc hl, hscan]
    refine ⟨_ :: tokens, last, rfl, ?_, hend⟩
    exact List.forall_mem_cons.2 ⟨⟨c, cs, l, hl, rfl, rfl⟩, hread⟩

/-! ## Tokens that were read -/

theorem IsRead.symbol_mem {token : Token} (h : token.IsRead) :
    token.symbol ∈
      [.comment, .string, .number, .name] ++ Symbol.reserved ++ Symbol.punctuation := by
  obtain ⟨c, cs, l, hl, hs, -⟩ := h
  rw [hs]
  obtain ⟨hs | hs, -⟩ | ⟨-, rfl⟩ | ⟨-, rfl⟩ | ⟨s, hmark, rfl⟩ := Lexeme.read_cases hl
  · simp [hs]
  · simp [hs]
  · simp [Lexeme.readNumeral]
  · rw [Lexeme.readName]
    cases hk : Symbol.keyword? (String.ofList ((c :: cs).takeWhile Lexeme.isNameChar)) with
    | none => simp
    | some s => simp [List.mem_of_find?_eq_some hk]
  · simp [hmark]

/-- Of the symbols without meaning, only comments are read. -/
theorem IsRead.symbol_facts {token : Token} (h : token.IsRead) :
    token.symbol ≠ .endOfFile ∧ (token.symbol.isMarker = true ↔ token.symbol = .comment) := by
  have hall : ∀ s ∈ [.comment, .string, .number, .name] ++ Symbol.reserved ++ Symbol.punctuation,
      s ≠ Symbol.endOfFile ∧ (s.isMarker = true ↔ s = .comment) := by decide
  exact hall _ h.symbol_mem

theorem IsRead.isName {token : Token} (h : token.IsRead) (hs : token.symbol = .name) :
    Lexeme.IsName token.lexeme := by
  obtain ⟨c, cs, l, hl, hsymbol, htext⟩ := h
  rw [hsymbol] at hs
  rw [htext]
  obtain ⟨h | h, -⟩ | ⟨-, rfl⟩ | ⟨hc, rfl⟩ | ⟨s, hmark, rfl⟩ := Lexeme.read_cases hl
  · rw [h] at hs
    cases hs
  · rw [h] at hs
    cases hs
  · cases hs
  · exact Lexeme.isName_of_readName hc hs
  · have hs : s = .name := hs
    rw [hs] at hmark
    exact absurd hmark (by decide)

/-- The lexeme of a number that was read is as much as a number takes up. -/
theorem IsRead.number_eq {token : Token} (h : token.IsRead) (hs : token.symbol = .number) :
    ∃ c cs, Lexeme.StartsNumber c cs ∧ token.lexeme.toList = Lexeme.numeral (c :: cs) := by
  obtain ⟨c, cs, l, hl, hsymbol, htext⟩ := h
  rw [hsymbol] at hs
  rw [htext]
  obtain ⟨h | h, -⟩ | ⟨hc, rfl⟩ | ⟨hc, rfl⟩ | ⟨s, hmark, rfl⟩ := Lexeme.read_cases hl
  · rw [h] at hs
    cases hs
  · rw [h] at hs
    cases hs
  · exact ⟨c, cs, hc, String.toList_ofList⟩
  · rw [Lexeme.readName] at hs
    cases hk : Symbol.keyword? (String.ofList ((c :: cs).takeWhile Lexeme.isNameChar)) with
    | none =>
      rw [hk] at hs
      cases hs
    | some s =>
      rw [hk] at hs
      have hs : s = .number := hs
      have := List.mem_of_find?_eq_some hk
      rw [hs] at this
      exact absurd this (by decide)
  · have hs : s = .number := hs
    rw [hs] at hmark
    exact absurd hmark (by decide)

/-- A number that was read does not start with a sign. -/
theorem IsRead.number_start {token : Token} (h : token.IsRead) (hs : token.symbol = .number) :
    ∃ c cs, token.lexeme.toList = c :: cs ∧ (c.isDigit = true ∨ c = '.') := by
  obtain ⟨c, cs, hc, htext⟩ := h.number_eq hs
  obtain ⟨rest, hrest⟩ := hc.numeral_eq
  exact ⟨c, rest, htext.trans hrest, hc.imp_right And.left⟩

end Token

end LuaLang
