import Mathlib
import LuaLang.Proofs.Grammar.OpenBlocks
import LuaLang.Proofs.Scan.Spans

/-!
# Sources that ended too early

An error at the end of the source says that something is missing there. What is missing can be
written out on the next line, so the source can be completed. This takes a source that is scanned to
its end, and one level more if the levels ran out at the end as well. There is one way to get stuck,
an equals sign in a table after something that is no name: no further line is accepted then, though
a second equals sign right behind the first one may be.

The scanner can say that a source ended too early, too, and that may be wrong: a quoted string that
a line end has broken is unfinished for good.

## Main statements

* `Token.exists_kept`: what is scanned of a source stays in front of the next line.
* `Block.parse_completable`: an error at the end of a scanned source can be mended by more source.
* `Block.incomplete_for_good`: an error for want of more source that nothing mends.
-/

namespace LuaLang

open TokenStream

/-! ## Where the end is -/

/-- Going over characters leads to a later line, or further on in the same one. -/
theorem Position.advanceAll_cases (p : Position) (cs : List Char) :
    p.line < (p.advanceAll cs).line ∨
      p.line = (p.advanceAll cs).line ∧ (p.advanceAll cs).column = p.column + cs.length := by
  induction cs generalizing p with
  | nil => exact .inr ⟨rfl, rfl⟩
  | cons c cs ih =>
    have hrest := ih (p.advance c)
    rw [advanceAll_cons, List.length_cons]
    by_cases hc : c = '\n'
    · have hline : (p.advance c).line = p.line + 1 := by simp [advance, hc]
      omega
    · have hline : (p.advance c).line = p.line := by simp [advance, hc]
      have hcolumn : (p.advance c).column = p.column + 1 := by simp [advance, hc]
      omega

/-- No character is where the source ends. -/
theorem Position.ofIndex_ne {source : List Char} {index : Nat} (h : index < source.length) :
    ofIndex source index ≠ ofIndex source source.length := by
  intro heq
  have hend : (ofIndex source index).advanceAll (source.drop index) =
      ofIndex source source.length := by
    rw [← start_advanceAll_take, ← start_advanceAll_take, ← advanceAll_append,
      List.take_append_drop, List.take_length]
  have hcases := advanceAll_cases (ofIndex source index) (source.drop index)
  rw [hend, ← heq, List.length_drop] at hcases
  omega

/-- Tokens were read from the source, and are where characters are. -/
theorem Token.Laid.mem {source : List Char} {start stop : Nat} {tokens : List Token}
    {spans : List Span} (h : Laid source start tokens spans stop) {token : Token}
    (htoken : token ∈ tokens) :
    token.IsRead ∧ token.place ≠ Position.ofIndex source source.length := by
  induction h with
  | blanks => cases htoken
  | token _ hfirst _ ih =>
    obtain rfl | htoken := List.mem_cons.1 htoken
    · obtain ⟨c, cs, -, hread⟩ := hfirst.read
      refine ⟨⟨c, cs, _, hread, rfl, rfl⟩, ?_⟩
      rw [Token.place, hfirst.position]
      exact Position.ofIndex_ne (hfirst.nonempty.trans_le hfirst.within)
    · exact ih htoken

/-! ## What is filled in is written out -/

/-- A terminal that can be filled in is spelt by some text that a blank ends. -/
theorem Terminal.Spellable.exists_spelt {terminal : Terminal} (h : terminal.Spellable) :
    ∃ cs y text ends, Lexeme.Spelt cs y text ends ∧ ends ' ' = true ∧ y.isMarker = false ∧
      ∀ token : Token, token.symbol = y → token.lexeme = text → terminal.Matches token := by
  cases terminal with
  | mark y =>
    have hfixed : ∀ y ∈ Symbol.reserved ++ Symbol.punctuation, y.isMarker = false := by decide
    have hy := h.2 y rfl
    exact ⟨_, y, _, _, Lexeme.spelt_symbol hy, (Lexeme.endsSymbol_space y).1, hfixed y hy,
      fun _ hs _ => hs⟩
  | name text =>
    exact ⟨_, _, text, _, Lexeme.spelt_name h.1, by decide, rfl, fun _ => And.intro⟩
  | string text =>
    exact ⟨_, _, text, _, Lexeme.spelt_string text, rfl, rfl, fun _ => And.intro⟩
  | number value =>
    refine ⟨_, _, _, _, Lexeme.spelt_number h.1, by decide, rfl, fun token hs htext => ⟨hs, ?_⟩⟩
    rw [htext]
    exact Number.ofLiteral?_numberLiteral h.1

/-- Terminals that can be filled in are what is scanned of some text. -/
theorem Terminal.exists_scanned {ys : List Terminal} (h : ∀ terminal ∈ ys, terminal.Spellable) :
    ∃ cs : List Char, ∀ p : Position, ∃ (ts : List Token) (last : Token),
      Token.scanAt p cs = ts.map .ok ++ [.ok last] ∧ last.symbol = .endOfFile ∧
        (∀ token ∈ ts, token.symbol.isMarker = false) ∧ MatchesAll ys ts := by
  induction ys with
  | nil => exact ⟨[], fun p => ⟨[], _, rfl, rfl, by simp, .nil⟩⟩
  | cons terminal ys ih =>
    rw [List.forall_mem_cons] at h
    obtain ⟨first, y, text, ends, hspelt, hends, hy, hmatches⟩ := h.1.exists_spelt
    obtain ⟨rest, hrest⟩ := ih h.2
    refine ⟨first ++ ' ' :: rest, fun p => ?_⟩
    obtain ⟨ts, last, hscan, hlast, hts, hall⟩ := hrest ((p.advanceAll first).advance ' ')
    have hspace : ∀ c ∈ (' ' :: rest).head?, ends c = true := by simpa using hends
    have hstep := hspelt.scanAt_append hspace p
    rw [Token.scanAt_of_blank _ (by decide), hscan] at hstep
    exact ⟨_ :: ts, last, hstep, hlast, List.forall_mem_cons.2 ⟨hy, hts⟩,
      .cons (hmatches _ rfl rfl) hall⟩

/-! ## Streams over whole sources -/

/-- The stream that starts with a token. -/
def TokenStream.startingWith (first : Token) (rest : List Scanned) : TokenStream :=
  ⟨first, .endOfFile first.line 0, rest⟩

theorem TokenStream.ofScanned_of_filter {scanned rest : List Scanned} {first : Token}
    (h : scanned.filter isMeaningful = .ok first :: rest) :
    ofScanned scanned = .ok (startingWith first rest) := by
  rw [ofScanned, h]
  rfl

/-- A stream over tokens in front of the end of the file comes to its end. -/
theorem Brink.ends_of_tokens {first before last : Token} {rest : List Token}
    (hlast : last.symbol = .endOfFile)
    (htokens : ∀ token ∈ first :: rest, token.symbol ≠ .endOfFile ∧ token.place ≠ last.place) :
    Brink.Ends ⟨(first :: rest).getLast (List.cons_ne_nil _ _), last.place⟩
      ⟨first, before, rest.map .ok ++ [.ok last]⟩ := by
  induction rest generalizing first before with
  | nil =>
    obtain ⟨hne, hplace⟩ := htokens first (by simp)
    exact .later hne hplace rfl (fun _ => ⟨rfl, rfl⟩) (.here hlast rfl)
  | cons second rest ih =>
    rw [List.forall_mem_cons] at htokens
    obtain ⟨⟨hne, hplace⟩, hrest⟩ := htokens
    have hsecond := (hrest second (by simp)).1
    rw [List.getLast_cons (List.cons_ne_nil _ _)]
    exact .later hne hplace rfl (fun hend => absurd hend hsecond) (ih hrest)

/-- Tokens stay in front of whatever follows them. -/
theorem Token.goesOn_tokens {tokens : List Token} {last : Token} {later : List Scanned}
    (hlast : last.symbol = .endOfFile) (htokens : ∀ token ∈ tokens, token.symbol ≠ .endOfFile) :
    Token.GoesOn (tokens.map .ok ++ [.ok last]) (tokens.map .ok ++ later) := by
  induction tokens with
  | nil => exact .ended later hlast
  | cons token tokens ih =>
    rw [List.forall_mem_cons] at htokens
    exact .next htokens.1 (ih htokens.2)

/-- The tokens of a source that is scanned to its end, but for comments: they come first whatever
follows on the next line, and none of them is where the source ends. -/
structure Token.Kept (source : String) (kept : List Token) (last : Token) : Prop where
  symbol_last : last.symbol = .endOfFile
  place_last : last.place = Position.ofIndex source.toList source.toList.length
  tokens : ∀ token ∈ kept, token.symbol ≠ .endOfFile ∧ token.place ≠ last.place
  scanned : (scan source).filter isMeaningful = kept.map .ok ++ [.ok last]
  nextLine : ∀ more : String, ∃ p, (scan (source ++ "\n" ++ more)).filter isMeaningful =
    kept.map .ok ++ (scanAt p more.toList).filter isMeaningful

theorem Token.exists_kept {source : String} (hscan : ∀ f, .error f ∉ scan source) :
    ∃ kept last, Kept source kept last := by
  obtain ⟨tokens, spans, last, hsource, -, hends⟩ := endsScan_scanAt [] source.toList
  change scan source = _ at hsource
  obtain ⟨last, rfl⟩ : ∃ token, last = .ok token := by
    cases last with
    | ok token => exact ⟨token, rfl⟩
    | error f => exact absurd (by simp [hsource]) (hscan f)
  obtain ⟨hlaid, hlast⟩ := hends
  have hplace : last.place = Position.ofIndex source.toList source.toList.length := by
    rw [hlast]
    rfl
  have heof : last.symbol = .endOfFile := congrArg Token.symbol hlast
  have hmeans : isMeaningful (.ok last) = true := by simp [isMeaningful, heof, Symbol.isMarker]
  have hfilter : (tokens.map Except.ok ++ [Except.ok last]).filter isMeaningful = _ :=
    filter_isMeaningful (fun token htoken => (hlaid.mem htoken).1) heof
  refine ⟨_, last, heof, hplace, fun token htoken => ?_, by rw [hsource, hfilter], fun more => ?_⟩
  · obtain ⟨hread, hne⟩ := hlaid.mem (List.mem_of_mem_filter htoken)
    exact ⟨hread.symbol_facts.1, hplace ▸ hne⟩
  · have htext : (source ++ "\n" ++ more).toList = source.toList ++ '\n' :: more.toList := by simp
    rw [List.filter_append, List.filter_singleton, hmeans] at hfilter
    rw [scan_eq, htext, scanAt_line hsource, List.filter_append, List.append_cancel_right hfilter]
    exact ⟨_, rfl⟩

namespace Token.Kept

variable {source : String} {levels : Nat} {first last : Token} {rest : List Token}

/-- Without a token there can be a level missing, but nothing else. -/
theorem parse_empty (h : Kept source [] last) (levels : Nat) :
    ∃ b, Block.parse source (levels + 1) = .ok b := by
  obtain ⟨-, -, hblock⟩ := Brink.mends_levels ⟨last, last.place⟩ levels
  obtain ⟨b, _, ⟨hfits, rfl⟩, hwriting⟩ := hblock.fills
  have hends : Heads (fun y => y.endsBlock = true) [last] :=
    ⟨last, [], rfl, by rw [h.symbol_last]; rfl⟩
  obtain ⟨t, hspans, ht⟩ := hwriting.2 (startingWith last []) [] [last] .nil hends ⟨rfl, rfl⟩
  refine ⟨b, ?_⟩
  rw [Block.parse_eq]
  refine Reading.ofScanned_chunk_eq_ok.2
    ⟨hfits, _, t, ofScanned_of_filter h.scanned, hspans, ?_⟩
  rw [TokenStream.symbol, ht.1, h.symbol_last]

/-- What is filled in at the end can be written out on the next line. -/
theorem parse_filled (h : Kept source (first :: rest) last) {ys : List Terminal} {b : Block}
    (hys : ∀ terminal ∈ ys, terminal.Spellable)
    (hfill : ∀ (ts : List Token) (last' : Token), Terminal.MatchesAll ys ts →
      last'.symbol = .endOfFile → ∃ t, Grammar.chunk levels
        ((startingWith first (rest.map .ok ++ [.ok last])).onto (ts ++ [last'])) = .ok b t) :
    ∃ more : String, Block.parse (source ++ more) levels = .ok b := by
  obtain ⟨cs, hcs⟩ := Terminal.exists_scanned hys
  obtain ⟨p, hmore⟩ := h.nextLine (String.ofList cs)
  obtain ⟨ts, last', hscanned, heof, hmarkers, hall⟩ := hcs p
  obtain ⟨t, ht⟩ := hfill ts last' hall heof
  have hne : (startingWith first (rest.map .ok ++ [.ok last])).symbol ≠ .endOfFile :=
    (h.tokens first (by simp)).1
  have hmeans : isMeaningful (.ok last') = true := by simp [isMeaningful, heof, Symbol.isMarker]
  rw [String.toList_ofList, hscanned, List.filter_append, Grammar.filter_map_ok hmarkers,
    List.filter_singleton, hmeans] at hmore
  have hstream : ofScanned (scan (source ++ "\n" ++ String.ofList cs)) =
      .ok ((startingWith first (rest.map .ok ++ [.ok last])).onto (ts ++ [last'])) := by
    rw [ofScanned_of_filter hmore, onto_of_ne hne]
    simp [startingWith]
  refine ⟨"\n" ++ String.ofList cs, ?_⟩
  rw [← String.append_assoc, Block.parse_eq, Reading.ofScanned, hstream]
  dsimp only
  rw [ht]

/-- What is refused whatever follows is refused whatever is written on the next line. -/
theorem parse_refused (h : Kept source (first :: rest) last)
    (hrefuses : ∀ t, (startingWith first (rest.map .ok ++ [.ok last])).Extended t →
      ∃ e u, Grammar.chunk levels t = .error e u) (more : String) :
    ∃ f, Block.parse (source ++ "\n" ++ more) levels = .error f := by
  obtain ⟨p, hmore⟩ := h.nextLine more
  obtain ⟨hfirst, hrest⟩ := List.forall_mem_cons.1 h.tokens
  have hextended : (startingWith first (rest.map .ok ++ [.ok last])).Extended
      (startingWith first (rest.map .ok ++ (scanAt p more.toList).filter isMeaningful)) :=
    ⟨rfl, rfl, hfirst.1,
      goesOn_tokens h.symbol_last fun token htoken => (hrest token htoken).1⟩
  obtain ⟨f, v, hv⟩ := hrefuses _ hextended
  refine ⟨f, ?_⟩
  rw [Block.parse_eq]
  exact (Grammar.ofScanned_eq_error_of_ok (ofScanned_of_filter hmore)).2 ⟨v, hv⟩

end Token.Kept

namespace Block

/-- The last token of a source but for comments is an equals sign. -/
def EndsWithEquals (source : String) : Prop :=
  ∃ before equals last, (Token.scan source).filter isMeaningful =
    before ++ [.ok equals, .ok last] ∧ equals.symbol = .equal ∧ last.symbol = .endOfFile

/-- If a source is scanned to its end and the error is there, more source completes it, with one
level more at most; unless its last token is an equals sign and no further line is accepted. -/
theorem parse_completable {source : String} {levels : Nat} {e : SyntaxError}
    (h : parse source levels = .error e) (hscan : ∀ f, .error f ∉ Token.scan source)
    (hend : e.place = Position.ofIndex source.toList source.toList.length) :
    (∃ (more : String) (b : Block), parse (source ++ more) (levels + 1) = .ok b) ∨
      EndsWithEquals source ∧
        ∀ more : String, ∃ f, parse (source ++ "\n" ++ more) levels = .error f := by
  rw [parse_eq] at h
  obtain ⟨kept, last, hkept⟩ := Token.exists_kept hscan
  cases kept with
  | nil =>
    obtain ⟨b, hb⟩ := hkept.parse_empty levels
    exact .inl ⟨"", b, by rwa [String.append_empty]⟩
  | cons first rest =>
    obtain ⟨u, hu⟩ := (Grammar.ofScanned_eq_error_of_ok (ofScanned_of_filter hkept.scanned)).1 h
    rcases Brink.chunk_mended (Brink.ends_of_tokens hkept.symbol_last hkept.tokens) hu
      (hend.trans hkept.place_last.symm) with ⟨hequals, hrefuses⟩ | ⟨b, ys, hys, hfill⟩
    · refine .inr ⟨⟨(first :: rest).dropLast.map .ok, _, last, ?_, hequals, hkept.symbol_last⟩,
        hkept.parse_refused hrefuses⟩
      have hsplit := congrArg (List.map (Except.ok (ε := SyntaxError)))
        (List.dropLast_append_getLast (List.cons_ne_nil first rest))
      rw [hkept.scanned, ← hsplit, List.map_append, List.append_assoc]
      rfl
    · obtain ⟨more, hmore⟩ := hkept.parse_filled hys hfill
      exact .inl ⟨more, b, hmore⟩

/-! ## Errors of the scanner -/

theorem scan_broken_string (more : String) :
    Token.scan ("x = \"a\n" ++ more) =
      [.ok ⟨.name, "x", 1, 1, 1⟩, .ok ⟨.equal, "=", 1, 3, 1⟩,
        .error ⟨.unfinishedString "a", 1, 5⟩] := by
  have htext : ("x = \"a\n" ++ more).toList =
      'x' :: ' ' :: '=' :: ' ' :: '"' :: 'a' :: '\n' :: more.toList := by simp
  generalize more.toList = rest at htext
  have hname : Lexeme.read 'x' (' ' :: '=' :: ' ' :: '"' :: 'a' :: '\n' :: rest) =
      .ok ⟨.name, "x", 1⟩ := by cbv
  have hequal : Lexeme.read '=' (' ' :: '"' :: 'a' :: '\n' :: rest) =
      .ok ⟨.equal, "=", 1⟩ := by cbv
  have hstring : Lexeme.read '"' ('a' :: '\n' :: rest) =
      .error ⟨.unfinishedString "a", 0⟩ := by cbv
  rw [Token.scan_eq, htext, Token.scanAt_of_read .start (by decide) hname]
  simp only [List.drop_succ_cons, List.drop_zero]
  rw [Token.scanAt_of_blank _ (by decide), Token.scanAt_of_read _ (by decide) hequal]
  simp only [List.drop_succ_cons, List.drop_zero]
  rw [Token.scanAt_of_blank _ (by decide), Token.scanAt_of_error _ (by decide) hstring]
  rfl

/-- A quoted string that a line end breaks is not finished, and nothing that follows finishes it. -/
theorem parse_broken_string (more : String) :
    parse ("x = \"a\n" ++ more) defaultLevels = .error ⟨.unfinishedString "a", 1, 5⟩ := by
  rw [parse_eq, scan_broken_string]
  cbv

/-- Not every source whose error says that it ended too early can be completed. -/
theorem incomplete_for_good :
    ¬ ∀ (source : String) (e : SyntaxError), parse source defaultLevels = .error e →
      e.isIncomplete = true → ∃ (more : String) (b : Block),
        parse (source ++ more) defaultLevels = .ok b := by
  intro h
  have hstart := parse_broken_string ""
  rw [String.append_empty] at hstart
  obtain ⟨more, b, hb⟩ := h _ _ hstart (by decide +kernel)
  rw [parse_broken_string] at hb
  cases hb

end Block

end LuaLang
