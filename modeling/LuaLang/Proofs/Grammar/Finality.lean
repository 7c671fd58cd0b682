import Mathlib
import LuaLang.Proofs.Grammar.Depth
import LuaLang.Proofs.Grammar.Lockstep
import LuaLang.Proofs.Scan.Continuation

/-!
# Errors that more source does not mend

A source is read line by line, and it can end too early. While a reading has not come to the end of
the file, it does what it would do if more lines followed. At the end of the file it cannot fail
without naming it, apart from a want of levels. So an error that is neither of the two, and not from
a string or comment that was not finished, is there whatever follows.

## Main definitions

* `TokenStream.Extended`: two streams, of which the second may go on where the first ends.
* `Grammar.moreSource`: a reading beside one of a longer source.

## Main statements

* `Block.parse_error_final`: such an error stays, and a source that can be completed has none.
-/

namespace LuaLang

/-! ## At the end of the file -/

namespace TokenStream

variable {s t : TokenStream}

theorem near_of_endOfFile (h : s.symbol = .endOfFile) : s.near = "<eof>" := by
  rw [symbol] at h
  rw [near, Token.near, h]
  rfl

/-- A message that quotes the current token last says at the end of the file that this is it. -/
theorem isIncomplete_of_message (h : s.symbol = .endOfFile) {cause : SyntaxError.Cause}
    {words : String} (hmessage : cause.message = words ++ s.near ++ "'")
    (hwords : words.toList.getLast? = some '\'') : (s.fault cause).isIncomplete = true := by
  have hend : "'<eof>'".toList <:+ (s.fault cause).message.toList := by
    obtain ⟨start, hstart⟩ := List.getLast?_eq_some_iff.1 hwords
    refine ⟨start, ?_⟩
    change _ = cause.message.toList
    rw [hmessage, near_of_endOfFile h, String.toList_append, String.toList_append, hstart]
    simp
  rw [SyntaxError.isIncomplete, String.endsWith_eq_endsWith_toSlice,
    String.Slice.endsWith_string_iff.2 (by simpa using hend), Bool.true_or]

/-! ## A stream beside a longer one -/

/-- The streams are at the same token, which is not the end of the file, and the second may go on
where the first ends. -/
structure Extended (s t : TokenStream) : Prop where
  current_eq : s.current = t.current
  last_eq : s.last = t.last
  symbol_ne : s.symbol ≠ .endOfFile
  rest : Token.GoesOn s.rest t.rest

theorem Extended.symbol_eq (h : s.Extended t) : s.symbol = t.symbol :=
  congrArg Token.symbol h.current_eq

theorem Extended.fault_eq (h : s.Extended t) (cause : SyntaxError.Cause) :
    s.fault cause = t.fault cause := by
  rw [fault, fault, h.current_eq]

theorem consume_of_ok {token : Token} {rest : List Scanned} (hs : s.symbol ≠ .endOfFile)
    (h : s.rest = .ok token :: rest) : Reading.consume s = .ok () ⟨token, s.current, rest⟩ := by
  rw [Reading.consume, if_neg hs, h]

theorem consume_of_error {e : SyntaxError} {rest : List Scanned} (hs : s.symbol ≠ .endOfFile)
    (h : s.rest = .error e :: rest) : Reading.consume s = .error e { s with rest } := by
  rw [Reading.consume, if_neg hs, h]

/-- The streams over what was scanned: the first one may fail or be at its end at once. -/
theorem ofScanned_of_goesOn {now later : List Scanned} (h : Token.GoesOn now later) :
    (∃ e, ofScanned now = .error e ∧ (e.isIncomplete = true ∨ ofScanned later = .error e)) ∨
      (∃ s, ofScanned now = .ok s ∧ s.symbol = .endOfFile) ∨
      ∃ s t, ofScanned now = .ok s ∧ ofScanned later = .ok t ∧ s.Extended t := by
  have hfilter := h.filter
  unfold ofScanned
  generalize now.filter isMeaningful = now at hfilter
  generalize later.filter isMeaningful = later at hfilter
  cases hfilter with
  | ended later hend => exact .inr (.inl ⟨_, rfl, hend⟩)
  | unfinished later hwant => exact .inl ⟨_, rfl, .inl hwant⟩
  | failed e => exact .inl ⟨e, rfl, .inr rfl⟩
  | next hsymbol hrest => exact .inr (.inr ⟨_, _, rfl, rfl, rfl, rfl, hsymbol, hrest⟩)

end TokenStream

namespace Grammar

open Reading TokenStream Comparison

/-- A reading beside one of a longer source. The comparison is over when the first comes to the end
of the file. -/
def beyondEnd : Comparison where
  Alike := Extended
  Over s := s.symbol = .endOfFile
  Same e f := e = f
  Leaves e := e.isIncomplete = true ∨ e.message = "chunk has too many syntax levels"
  Strays _ := False

/-- The next token ends the first stream, or there is the same one in both. -/
theorem consume_of_extended {s t : TokenStream} (h : s.Extended t) :
    beyondEnd.Safe (consume s) ∨
      s.nextSymbol = t.nextSymbol ∧ beyondEnd.Outcome (consume s) (consume t) := by
  have hs := h.symbol_ne
  have ht : t.symbol ≠ .endOfFile := h.symbol_eq ▸ hs
  have hrest := h.rest
  unfold nextSymbol
  rw [if_neg hs, if_neg ht]
  generalize hnow : s.rest = now at hrest
  generalize hlater : t.rest = later at hrest
  cases hrest with
  | ended later hend =>
    rw [consume_of_ok hs hnow]
    exact .inl hend
  | unfinished later hwant =>
    rw [consume_of_error hs hnow]
    exact .inl (.inl hwant)
  | failed e =>
    rw [consume_of_error hs hnow, consume_of_error ht hlater]
    exact .inr ⟨rfl, .inl rfl⟩
  | next hsymbol hrest =>
    rw [consume_of_ok hs hnow, consume_of_ok ht hlater]
    exact .inr ⟨rfl, .inl ⟨rfl, rfl, h.current_eq, hsymbol, hrest⟩⟩

/-- Before the end of the file each step is the same, and at the end of the file it is named. -/
def moreSource : Simulation where
  toComparison := beyondEnd
  symbol_eq := Extended.symbol_eq
  lexeme_eq h := congrArg Token.lexeme h.current_eq
  consume h := (consume_of_extended h).elim Safe.outcome And.right
  fault h _ := h.fault_eq _
  callGuard h _ := outcome_callGuard h h.current_eq h.last_eq fun _ => rfl
  lookahead h := (consume_of_extended h).symm.imp_left And.left
  over_consume {s} h := by
    have hend : s.symbol = .endOfFile := h
    rw [Reading.consume, if_pos hend]
    exact h
  over_fault {s cause} h hcause := by
    cases hcause with
    | unexpected => exact .inl (isIncomplete_of_message h rfl (by simp))
    | expected => exact .inl (isIncomplete_of_message h rfl (by simp [List.getLast?_cons]))
    | ambiguousCall => exact .inl (isIncomplete_of_message h rfl (by simp))
    | malformedNumber hnumber => exact absurd (h.symm.trans hnumber) nofun
    | tooManyLevels => exact .inr rfl

/-- Reading what was scanned is reading the stream over it. -/
theorem ofScanned_eq_error_of_ok {α : Type} {x : Reading α} {scanned : List Scanned}
    {s : TokenStream} (hs : TokenStream.ofScanned scanned = .ok s) {e : SyntaxError} :
    x.ofScanned scanned = .error e ↔ ∃ t, x s = .error e t := by
  rw [Reading.ofScanned_eq_error, hs]
  simp

/-- An error comes from the end of the file, or it stays when more is scanned. -/
theorem error_of_goesOn {α : Type} {x : Reading α} (hx : moreSource.Agrees x x)
    {now later : List Scanned} (h : Token.GoesOn now later) {e : SyntaxError}
    (herror : x.ofScanned now = .error e) :
    moreSource.Leaves e ∨ x.ofScanned later = .error e := by
  rcases ofScanned_of_goesOn h with ⟨f, hnow, hf⟩ | ⟨s, hnow, hs⟩ | ⟨s, t, hnow, hlater, hst⟩
  · rw [Reading.ofScanned, hnow] at herror
    cases herror
    exact hf.imp .inl fun hlater => Reading.ofScanned_eq_error.2 (.inl hlater)
  · obtain ⟨u, hresult⟩ := (ofScanned_eq_error_of_ok hnow).1 herror
    have hsafe := hx.safe hs
    rw [hresult] at hsafe
    exact .inl hsafe
  · obtain ⟨u, hresult⟩ := (ofScanned_eq_error_of_ok hnow).1 herror
    have houtcome := hx.alike hst
    rw [hresult] at houtcome
    rcases houtcome.of_error with hleaves | ⟨f, v, hlong, rfl | hstrays⟩
    · exact .inl hleaves
    · exact .inr ((ofScanned_eq_error_of_ok hlater).2 ⟨v, hlong⟩)
    · exact hstrays.elim

end Grammar

namespace Block

/-! ## Whole sources -/

theorem goesOn_scan (text more : String) :
    Token.GoesOn (Token.scan (text ++ "\n")) (Token.scan (text ++ "\n" ++ more)) := by
  have hline : Lexeme.EndsLine (text ++ "\n").toList := by
    simp [Lexeme.EndsLine]
  have hmore : (text ++ "\n" ++ more).toList = (text ++ "\n").toList ++ more.toList :=
    String.toList_append
  rw [Token.scan_eq, Token.scan_eq, hmore]
  exact Token.goesOn_scanAt .start (.inr hline) more.toList

/-- An error in a source of whole lines stays whatever follows them, unless it says that the source
ended too early or that there were too few levels. So if the source can be completed, its error is
one of these. -/
theorem parse_error_final {text : String} {levels : Nat} {e : SyntaxError}
    (h : parse (text ++ "\n") levels = .error e) :
    (e.isIncomplete = false → e.message ≠ "chunk has too many syntax levels" →
      ∀ more : String, parse (text ++ "\n" ++ more) levels = .error e) ∧
    ∀ (more : String) (tree : Block), parse (text ++ "\n" ++ more) levels = .ok tree →
      e.isIncomplete = true ∨ e.message = "chunk has too many syntax levels" := by
  have hstays : ∀ more : String,
      (e.isIncomplete = true ∨ e.message = "chunk has too many syntax levels") ∨
        parse (text ++ "\n" ++ more) levels = .error e :=
    fun more => by
      rw [parse_eq] at h ⊢
      exact Grammar.error_of_goesOn (Grammar.agrees_chunk (.inl rfl)) (goesOn_scan text more) h
  refine ⟨fun hcomplete hlevels more => ?_, fun more tree htree => ?_⟩
  · refine (hstays more).resolve_left ?_
    rintro (hincomplete | hmessage)
    · rw [hcomplete] at hincomplete
      cases hincomplete
    · exact hlevels hmessage
  · refine (hstays more).resolve_right fun herror => ?_
    rw [htree] at herror
    cases herror

theorem parse_error_final_stray :
    parse ("x = ) 1" ++ "\n" ++ "y = 2\n") 3 = .error ⟨.unexpected ")", 1, 5⟩ := by
  have h : parse ("x = ) 1" ++ "\n") 3 = .error ⟨.unexpected ")", 1, 5⟩ := by cbv
  exact (parse_error_final h).1 (by decide +kernel) (by decide +kernel) "y = 2\n"

end Block

end LuaLang
