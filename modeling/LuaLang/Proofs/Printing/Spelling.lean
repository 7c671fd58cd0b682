import Mathlib
import LuaLang.Proofs.Grammar.Shape
import LuaLang.Proofs.Printing.Layout
import LuaLang.Proofs.Scan.Lexemes

/-!
# Texts that spell stretches

A text spells stretches if the stream over it passes them, whatever follows the text, as long as
that does not run into it. What two texts in a row have to know of each other is the edge between
them: whether a token has just ended there, and what comes next. The edges of a text are part of
what it spells, so texts whose edges agree can be put together.

## Main definitions

* `TokenStream.At`: the stream over what is scanned from a position on.
* `Lexical`: stretches whose names are names and whose numbers have literals.
* `Edge`: what is known of the place between two texts.
* `Spells`: a text that spells stretches, from one edge to another.

## Main statements

* `Spells.trans`: texts in a row spell what they spell in a row.
* `Spells.indent`: indentation does not change what lines spell.
* `Spells.row`: texts with a separator between them.
-/

namespace LuaLang

/-! ## Streams over scanned text -/

/-- The stream over what is scanned from a position on, after a given token. -/
def TokenStream.At (s : TokenStream) (p : Position) (last : Token) (cs : List Char) : Prop :=
  (Token.scanAt p cs).filter TokenStream.isMeaningful = .ok s.current :: s.rest ∧ s.last = last

namespace TokenStream.At

variable {s u : TokenStream} {p : Position} {last : Token} {cs after : List Char}

theorem blank {c : Char} (hc : Number.isBlank c = true) (h : s.At (p.advance c) last cs) :
    s.At p last (c :: cs) := by
  rw [At, Token.scanAt_of_blank p hc]
  exact h

theorem tabs {n : Nat} (h : s.At (p.advanceAll (List.replicate n '\t')) last cs) :
    s.At p last (List.replicate n '\t' ++ cs) := by
  induction n generalizing p with
  | zero => exact h
  | succ n ih => exact blank (by decide) (ih h)

/-- A lexeme that was spelt is the current token, and what is after it comes next. -/
theorem read {y : Symbol} {text : String} {ends : Char → Bool}
    (h : Lexeme.Spelt cs y text ends) (hy : y.isMarker = false ∧ y ≠ .endOfFile)
    (hafter : ∀ c ∈ after.head?, ends c = true) (last : Token)
    (hu : u.At (p.advanceAll cs) ⟨y, text, p.line, p.column, (p.advanceAll cs).line⟩ after) :
    ∃ s : TokenStream, s.At p last (cs ++ after) ∧ s.Next u ∧ s.last = last ∧
      s.current = ⟨y, text, p.line, p.column, (p.advanceAll cs).line⟩ := by
  obtain ⟨hscan, hlast⟩ := hu
  refine ⟨⟨⟨y, text, p.line, p.column, (p.advanceAll cs).line⟩, last,
    .ok u.current :: u.rest⟩, ⟨?_, rfl⟩, ⟨hy.2, ?_⟩, rfl, rfl⟩
  · rw [h.scanAt_append hafter, List.filter_cons_of_pos (by simp [isMeaningful, hy.1]), hscan]
  · refine (if_neg hy.2).trans ?_
    rw [← hlast]

theorem endOfFile (p : Position) (last : Token) :
    At ⟨.endOfFile p.line p.column, last, []⟩ p last [] :=
  ⟨rfl, rfl⟩

end TokenStream.At

/-- The characters that end a reserved word or a mark. -/
def Lexeme.endsSymbol (y : Symbol) (c : Char) : Bool :=
  if y ∈ Symbol.reserved then endsName c else endsMark y c

theorem Lexeme.endsSymbol_mark {y : Symbol} (h : y ∈ Symbol.punctuation) (c : Char) :
    endsSymbol y c = endsMark y c := by
  have hmarks : ∀ y ∈ Symbol.punctuation, y ∉ Symbol.reserved := by decide
  rw [endsSymbol, if_neg (hmarks y h)]

/-- Blank space ends all of them. -/
theorem Lexeme.endsSymbol_space (y : Symbol) :
    endsSymbol y ' ' = true ∧ endsSymbol y '\n' = true := by
  unfold endsSymbol
  split
  · decide
  · cases y <;> decide

theorem Lexeme.spelt_symbol {y : Symbol} (h : y ∈ Symbol.reserved ++ Symbol.punctuation) :
    Spelt y.text.toList y y.text (endsSymbol y) := by
  by_cases hy : y ∈ Symbol.reserved
  · rw [show endsSymbol y = endsName from funext fun c => if_pos hy]
    exact spelt_word hy
  · have hmark := (List.mem_append.1 h).resolve_left hy
    rw [show endsSymbol y = endsMark y from funext (endsSymbol_mark hmark), toList_text hmark]
    exact spelt_mark hmark

/-! ## What can be spelt -/

/-- A terminal that can be written: names are names, and numbers have literals. -/
def Terminal.Lexical : Terminal → Prop
  | .name text => Lexeme.IsName text
  | .number value => Number.IsLiteral value
  | _ => True

/-- All terminals that the stretches fix can be written. -/
def Lexical (w : List Stretch) : Prop :=
  ∀ terminal, .one terminal ∈ w → terminal.Lexical

@[simp] theorem lexical_append {v w : List Stretch} :
    Lexical (v ++ w) ↔ Lexical v ∧ Lexical w := by
  simp only [Lexical, List.mem_append]
  exact ⟨fun h => ⟨fun t ht => h t (.inl ht), fun t ht => h t (.inr ht)⟩,
    fun h t ht => ht.elim (h.1 t) (h.2 t)⟩

theorem lexical_mark (y : Symbol) : Lexical [.mark y] := by
  intro terminal hmem
  obtain rfl : terminal = .mark y := by simpa [Stretch.mark] using hmem
  trivial

/-- What is known of a place between two texts. -/
structure Edge where
  /-- The token before the place ends on its line. -/
  near : Bool
  /-- What may come next: the first character, and the first symbol. -/
  next : Option Char → Symbol → Bool

/-- A text spells stretches: from an edge on the left of it, a stream over the text passes the
stretches and comes to an edge on the right of it, however the lines are indented. The nearness of a
token is handed from left to right, and what comes next from right to left. -/
structure Spells (l : Edge) (cs : List Char) (w : List Stretch) (r : Edge) : Prop where
  plain : Lexical w → '\r' ∉ cs
  spans : Lexical w → ∀ t, Respaced cs t → ∀ (p : Position) (last : Token),
    (l.near = true → last.endLine = p.line) →
      ∃ last' : Token, (r.near = true → last'.endLine = (p.advanceAll t).line) ∧
        ∀ after (u : TokenStream), u.At (p.advanceAll t) last' after →
          r.next after.head? u.symbol = true →
            ∃ s : TokenStream, s.At p last (t ++ after) ∧
              l.next (t ++ after).head? s.symbol = true ∧ Spans w s u

namespace Spells

variable {l m r : Edge} {cs ds : List Char} {v w : List Stretch}

theorem trans (h : Spells l cs v m) (g : Spells m ds w r) : Spells l (cs ++ ds) (v ++ w) r := by
  constructor
  · intro hw
    rw [lexical_append] at hw
    rw [List.mem_append, not_or]
    exact ⟨h.plain hw.1, g.plain hw.2⟩
  · intro hw t ht p last hl
    rw [lexical_append] at hw
    obtain ⟨t, t', rfl, ht, ht'⟩ := ht.of_append
    obtain ⟨mid, hmid, hspans⟩ := h.spans hw.1 t ht p last hl
    obtain ⟨last', hr, hspans'⟩ := g.spans hw.2 t' ht' _ mid hmid
    refine ⟨last', by simpa using hr, fun after u hu hnext => ?_⟩
    rw [Position.advanceAll_append] at hu
    obtain ⟨i, hi, hinext, hiu⟩ := hspans' after u hu hnext
    obtain ⟨s, hs, hsnext, hsi⟩ := hspans _ i hi hinext
    rw [List.append_assoc]
    exact ⟨s, hs, hsnext, spans_append.2 ⟨i, hsi, hiu⟩⟩

/-- A text that does not know all of what is on its right may be told more. -/
theorem right {r' : Edge} (h : Spells l cs w r) (hnear : r'.near = true → r.near = true)
    (hnext : ∀ c y, r'.next c y = true → r.next c y = true) : Spells l cs w r' := by
  refine ⟨h.plain, fun hw t ht p last hlast => ?_⟩
  obtain ⟨last', hlast', hspans⟩ := h.spans hw t ht p last hlast
  refine ⟨last', fun hr => hlast' (hnear hr), fun after u hu hu' => ?_⟩
  exact hspans after u hu (hnext _ _ hu')

/-- On its left, a text may tell less of itself. -/
theorem left {l' : Edge} (h : Spells l cs w r) (hnear : l.near = true → l'.near = true)
    (hnext : ∀ c y, l.next c y = true → l'.next c y = true) : Spells l' cs w r := by
  refine ⟨h.plain, fun hw t ht p last hlast => ?_⟩
  obtain ⟨last', hlast', hspans⟩ := h.spans hw t ht p last fun hl => hlast (hnear hl)
  refine ⟨last', hlast', fun after u hu hu' => ?_⟩
  obtain ⟨s, hs, hsnext, hsu⟩ := hspans after u hu hu'
  exact ⟨s, hs, hnext _ _ hsnext, hsu⟩

/-- A text that is not empty can tell its own first character. -/
theorem start {l' : Edge} (h : Spells l cs w r) (hnear : l.near = true → l'.near = true)
    (hne : Lexical w → cs ≠ [])
    (hnext : ∀ c ∈ cs.head?, ∀ y, l.next (some c) y = true → l'.next (some c) y = true) :
    Spells l' cs w r := by
  refine ⟨h.plain, fun hw t ht p last hlast => ?_⟩
  obtain ⟨last', hlast', hspans⟩ := h.spans hw t ht p last fun hl => hlast (hnear hl)
  refine ⟨last', hlast', fun after u hu hu' => ?_⟩
  obtain ⟨s, hs, hsnext, hsu⟩ := hspans after u hu hu'
  refine ⟨s, hs, ?_, hsu⟩
  obtain ⟨c, cs, rfl⟩ := List.exists_cons_of_ne_nil (hne hw)
  obtain ⟨t, rfl⟩ : ∃ rest, t = c :: rest := List.head?_eq_some_iff.1 ht.head?_eq
  exact hnext c rfl _ hsnext

/-! ## Spaces and marks -/

/-- A stretch that takes up nothing is spelt by nothing. -/
theorem nothing {stretch : Stretch} (hnear : r.near = true → l.near = true)
    (h : ∀ c (s : TokenStream), r.next c s.symbol = true →
      stretch.Passes s s ∧ l.next c s.symbol = true) : Spells l [] [stretch] r := by
  refine ⟨fun _ => List.not_mem_nil, fun _ t ht p last hl => ?_⟩
  cases ht
  refine ⟨last, fun hr => hl (hnear hr), fun after u hu hnext => ?_⟩
  obtain ⟨hpasses, hl⟩ := h _ u hnext
  exact ⟨u, hu, hl, u, hpasses, rfl⟩

theorem blank (hnear : r.near = true → l.near = true)
    (h : ∀ c y, r.next c y = true → l.next (some ' ') y = true) : Spells l [' '] [] r := by
  refine ⟨fun _ => by simp, fun _ t ht p last hl => ?_⟩
  obtain rfl := ht.eq_of_plain (by simp)
  exact ⟨last, fun hr => hl (hnear hr), fun after u hu hnext =>
    ⟨u, .blank (by decide) hu, h _ _ hnext, rfl⟩⟩

theorem newline (hnear : r.near = false)
    (h : ∀ c y, r.next c y = true → l.next (some '\n') y = true) : Spells l ['\n'] [] r := by
  refine ⟨fun _ => by simp, fun _ t ht p last hl => ?_⟩
  cases ht with
  | char hc => exact absurd rfl hc
  | line tabs ht =>
    cases ht
    refine ⟨last, by simp [hnear], fun after u hu hnext => ?_⟩
    rw [List.append_nil] at hu ⊢
    exact ⟨u, .blank (by decide) (.tabs hu), h _ _ hnext, rfl⟩

/-- A lexeme is spelt by its characters. -/
theorem lexeme {y : Symbol} {text : String} {ends : Char → Bool} (terminal : Terminal)
    (h : terminal.Lexical → Lexeme.Spelt cs y text ends)
    (hy : y.isMarker = false ∧ y ≠ .endOfFile)
    (hmatches : terminal.Lexical → ∀ token : Token, token.symbol = y → token.lexeme = text →
      terminal.Matches token)
    (hl : terminal.Lexical → ∀ c ∈ cs.head?, l.next (some c) y = true)
    (hr : ∀ c z, r.next (some c) z = true → ends c = true) :
    Spells l cs [.one terminal] r := by
  refine ⟨fun hw hmem => ?_, fun hw t ht p last _ => ?_⟩
  · exact ((h (hw terminal (by simp))).plain _ hmem).2 rfl
  · have hterminal := hw terminal (by simp)
    have hspelt := h hterminal
    obtain rfl := ht.eq_of_plain fun hmem => (hspelt.plain _ hmem).1 rfl
    refine ⟨⟨y, text, p.line, p.column, (p.advanceAll t).line⟩, fun _ => rfl,
      fun after u hu hnext => ?_⟩
    have hends : ∀ c ∈ after.head?, ends c = true := fun c hc => hr c _ (hc ▸ hnext)
    obtain ⟨s, hs, hsu, -, hcurrent⟩ := TokenStream.At.read hspelt hy hends last hu
    refine ⟨s, hs, ?_, u, ⟨hmatches hterminal _ ?_ ?_, hsu⟩, rfl⟩
    · obtain ⟨c, rest, rfl, -⟩ := hspelt.read
      rw [TokenStream.symbol, hcurrent]
      exact hl hterminal c rfl
    · rw [hcurrent]
    · rw [hcurrent]

theorem name {text : String}
    (hl : ∀ c, Lexeme.isNameStart c = true → l.next (some c) .name = true)
    (hr : ∀ c z, r.next (some c) z = true → Lexeme.endsName c = true) :
    Spells l text.toList [.name text] r := by
  refine lexeme (.name text) Lexeme.spelt_name (by decide)
    (fun _ _ => And.intro) (fun h c hc => ?_) hr
  obtain ⟨d, ds, htext, hd⟩ := h.start
  rw [htext] at hc
  cases hc
  exact hl c hd

theorem number {value : Number}
    (hl : ∀ c, c.isDigit = true → l.next (some c) .number = true)
    (hr : ∀ c z, r.next (some c) z = true → Lexeme.endsNumber c = true) :
    Spells l (numberLiteral value).toList [.one (.number value)] r := by
  refine lexeme (.number value) Lexeme.spelt_number (by decide) ?_ ?_ hr
  · intro h token hs htext
    exact ⟨hs, htext ▸ Number.ofLiteral?_numberLiteral h⟩
  · intro h c hc
    obtain ⟨d, ds, htext, hd, -⟩ := Lexeme.isNumeral_numberLiteral h
    rw [htext] at hc
    cases hc
    exact hl c hd

theorem string {text : String} (hl : l.next (some '"') .string = true) :
    Spells l (stringLiteral text).toList [.one (.string text)] r := by
  refine lexeme (.string text) (fun _ => Lexeme.spelt_string text) (by decide)
    (fun _ _ => And.intro) (fun _ c hc => ?_) fun _ _ _ => rfl
  rw [Lexeme.toList_stringLiteral] at hc
  cases hc
  exact hl

/-- A reserved word or a mark is spelt by its text. -/
theorem symbol {y : Symbol} (hy : y ∈ Symbol.reserved ++ Symbol.punctuation)
    (hl : l.next y.text.toList.head? y = true)
    (hr : ∀ c z, r.next (some c) z = true → Lexeme.endsSymbol y c = true) :
    Spells l y.text.toList [.mark y] r := by
  have hfixed : ∀ y ∈ Symbol.reserved ++ Symbol.punctuation,
      y.isMarker = false ∧ y ≠ .endOfFile := by decide
  refine lexeme (.mark y) (fun _ => Lexeme.spelt_symbol hy) (hfixed y hy)
    (fun _ _ hs _ => hs) (fun _ c hc => ?_) hr
  rwa [← hc]

theorem word {y : Symbol} (hy : y ∈ Symbol.reserved) (hl : l.next y.text.toList.head? y = true)
    (hr : ∀ c z, r.next (some c) z = true → Lexeme.endsName c = true) :
    Spells l y.text.toList [.mark y] r :=
  symbol (List.mem_append_left _ hy) hl fun c z hz => by
    rw [Lexeme.endsSymbol, if_pos hy]
    exact hr c z hz

theorem mark {y : Symbol} (hy : y ∈ Symbol.punctuation) (hl : l.next y.text.toList.head? y = true)
    (hr : ∀ c z, r.next (some c) z = true → Lexeme.endsMark y c = true) :
    Spells l y.text.toList [.mark y] r :=
  symbol (List.mem_append_right _ hy) hl fun c z hz => by
    rw [Lexeme.endsSymbol_mark hy]
    exact hr c z hz

/-- In front of a blank a symbol needs to know nothing of what comes next. -/
theorem symbol_blank {y : Symbol} (hy : y ∈ Symbol.reserved ++ Symbol.punctuation)
    (hl : l.next y.text.toList.head? y = true) :
    Spells l (y.text.toList ++ [' ']) [.mark y] r := by
  have hsymbol : Spells l y.text.toList [.mark y] ⟨true, fun c _ => c == some ' '⟩ := by
    refine symbol hy hl fun c _ hc => ?_
    obtain rfl : c = ' ' := by simpa using hc
    exact (Lexeme.endsSymbol_space y).1
  exact hsymbol.trans (blank (fun _ => rfl) fun _ _ _ => rfl)

/-- In front of a line end, too. -/
theorem symbol_newline {y : Symbol} (hy : y ∈ Symbol.reserved ++ Symbol.punctuation)
    (hl : l.next y.text.toList.head? y = true) (hr : r.near = false) :
    Spells l (y.text.toList ++ ['\n']) [.mark y] r := by
  have hsymbol : Spells l y.text.toList [.mark y] ⟨true, fun c _ => c == some '\n'⟩ := by
    refine symbol hy hl fun c _ hc => ?_
    obtain rfl : c = '\n' := by simpa using hc
    exact (Lexeme.endsSymbol_space y).2
  exact hsymbol.trans (newline hr fun _ _ _ => rfl)

/-- A blank, where it is known which symbol follows. -/
theorem blank_before {y : Symbol} (hl : l.next (some ' ') y = true) :
    Spells l [' '] [] ⟨false, fun _ z => z = y⟩ := by
  refine blank (fun h => by cases h) fun _ z hz => ?_
  obtain rfl : z = y := by simpa using hz
  exact hl

theorem blank_symbol_blank {y : Symbol} (hy : y ∈ Symbol.reserved ++ Symbol.punctuation)
    (hl : l.next (some ' ') y = true) :
    Spells l ([' '] ++ (y.text.toList ++ [' '])) [.mark y] r :=
  (blank_before hl).trans (symbol_blank hy (by simp))

theorem blank_symbol_newline {y : Symbol} (hy : y ∈ Symbol.reserved ++ Symbol.punctuation)
    (hl : l.next (some ' ') y = true) (hr : r.near = false) :
    Spells l ([' '] ++ (y.text.toList ++ ['\n'])) [.mark y] r :=
  (blank_before hl).trans (symbol_newline hy (by simp) hr)

/-- A parenthesis that follows a token on its line can open arguments. -/
theorem callParen (hnear : l.near = true) (hl : l.next (some '(') .leftParen = true) :
    Spells l ['('] [.callParen] r := by
  refine ⟨fun _ => by simp, fun _ t ht p last hlast => ?_⟩
  obtain rfl := ht.eq_of_plain (by simp)
  have hspelt := Lexeme.spelt_mark (s := .leftParen) (by decide)
  refine ⟨⟨.leftParen, Symbol.leftParen.text, p.line, p.column, (p.advanceAll ['(']).line⟩,
    fun _ => rfl, fun after u hu _ => ?_⟩
  obtain ⟨s, hs, hsu, hslast, hcurrent⟩ :=
    TokenStream.At.read hspelt (by decide) (fun _ _ => rfl) last hu
  refine ⟨s, hs, ?_, u, ⟨?_, ?_, hsu⟩, rfl⟩
  · rw [TokenStream.symbol, hcurrent]
    exact hl
  · rw [TokenStream.symbol, hcurrent]
  · rw [hcurrent, hslast, hlast hnear]

/-- Other stretches that are passed in the same way are spelt, too. -/
theorem respan (h : Spells l cs v r) (hlexical : Lexical w → Lexical v)
    (hspans : ∀ (s u : TokenStream) c, r.next c u.symbol = true → Spans v s u → Spans w s u) :
    Spells l cs w r := by
  refine ⟨fun hw => h.plain (hlexical hw), fun hw t ht p last hl => ?_⟩
  obtain ⟨last', hlast, hall⟩ := h.spans (hlexical hw) t ht p last hl
  refine ⟨last', hlast, fun after u hu hnext => ?_⟩
  obtain ⟨s, hs, hsnext, hsu⟩ := hall after u hu hnext
  exact ⟨s, hs, hsnext, hspans s u _ hnext hsu⟩

/-! ## Lines and rows -/

/-- Indentation does not change what lines spell. -/
theorem indent {text : String} (h : Spells l text.toList w r) (hlines : Text.IsLines text.toList)
    (hnear : l.near = false) (hl : ∀ c d y, l.next c y = true → l.next d y = true) :
    Spells l (Text.indent text).toList w r := by
  constructor
  · intro hw
    rw [Text.toList_indent (h.plain hw)]
    exact Text.not_mem_indented (h.plain hw) true
  · intro hw t ht p last _
    obtain ⟨htext, rfl⟩ | ⟨t, rfl, hrest⟩ := Respaced.of_indent hlines (h.plain hw) ht
    · exact h.spans hw [] (htext ▸ .nil) p last (by simp [hnear])
    · obtain ⟨last', hlast, hspans⟩ := h.spans hw t hrest (p.advance '\t') last (by simp [hnear])
      refine ⟨last', hlast, fun after u hu hnext => ?_⟩
      obtain ⟨s, hs, hsnext, hsu⟩ := hspans after u hu hnext
      exact ⟨s, .blank (by decide) hs, hl _ _ _ hsnext, hsu⟩

/-- Texts with a separator between any two of them. -/
theorem row {α : Type} {text : α → List Char} {writing : α → List Stretch} {sep : List Char}
    {between : Stretch} {items : List α} (hne : items ≠ [])
    (h : ∀ a ∈ items, Spells l (text a) (writing a) m) (hsep : Spells m sep [between] l) :
    Spells l (sep.intercalate (items.map text)) (LuaLang.row between (items.map writing)) m := by
  induction items with
  | nil => exact absurd rfl hne
  | cons a rest ih =>
    have ha := h a (by simp)
    cases rest with
    | nil => simpa [LuaLang.row] using ha
    | cons b rest =>
      have hrest := ih (by simp) fun a ha => h a (List.mem_cons_of_mem _ ha)
      have hall := ha.trans (hsep.trans hrest)
      rw [List.map_cons, List.map_cons, List.intercalate_cons_cons]
      simpa [LuaLang.row] using hall

end Spells

end LuaLang
