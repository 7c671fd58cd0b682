import Mathlib
import LuaLang.Proofs.Grammar.Accounting
import LuaLang.Proofs.Grammar.Lockstep
import LuaLang.Proofs.Scan.Lexemes

/-!
# The first line of a script

The positions in a source are relative to its start. A source that starts some lines further down is
scanned to the same tokens and errors, each of them that many lines further down. Readings compare
lines with each other only, so they do the same with such tokens, and report their errors that many
lines further down. In particular this is what a first line for the system comes to.

## Main definitions

* `Position.down`, `Token.down`, `TokenStream.down`: the same, some lines further down.
* `Grammar.linesDown`: a reading beside one some lines further down.

## Main statements

* `Token.scanAt_down`: scanning.
* `Grammar.ofScanned_down`: reading what was scanned.
* `Block.parseScript_firstLine`: a first line for the system shifts the lines of errors only.
-/

namespace LuaLang

variable {n : Nat}

/-! ## Further down -/

/-- The same column some lines further down. -/
def Position.down (n : Nat) (p : Position) : Position :=
  { p with line := p.line + n }

/-- The same error some lines further down. -/
def SyntaxError.down (n : Nat) (e : SyntaxError) : SyntaxError :=
  { e with line := e.line + n }

/-- The same token some lines further down. -/
def Token.down (n : Nat) (token : Token) : Token :=
  { token with line := token.line + n, endLine := token.endLine + n }

/-- The same token or error some lines further down. -/
def Scanned.down (n : Nat) : Scanned → Scanned
  | .ok token => .ok (token.down n)
  | .error e => .error (e.down n)

/-- The same stream some lines further down. -/
def TokenStream.down (n : Nat) (s : TokenStream) : TokenStream :=
  ⟨s.current.down n, s.last.down n, s.rest.map (Scanned.down n)⟩

/-! ## Scanning -/

namespace Position

theorem advance_down (p : Position) (c : Char) : (p.down n).advance c = (p.advance c).down n := by
  unfold advance
  split
  · simp [down, Nat.add_right_comm]
  · rfl

theorem advanceAll_down (p : Position) (cs : List Char) :
    (p.down n).advanceAll cs = (p.advanceAll cs).down n := by
  induction cs generalizing p with
  | nil => rfl
  | cons c cs ih => rw [advanceAll_cons, advanceAll_cons, advance_down, ih]

end Position

/-- What is scanned from a position some lines further down is that many lines further down. -/
theorem Token.scanAt_down (p : Position) (cs : List Char) :
    scanAt (p.down n) cs = (scanAt p cs).map (Scanned.down n) := by
  induction cs using scan_induction generalizing p with
  | nil => rfl
  | blank c cs hc ih =>
    rw [scanAt_of_blank p hc, scanAt_of_blank _ hc, Position.advance_down]
    exact ih _
  | error c cs fault hc hl =>
    rw [scanAt_of_error p hc hl, scanAt_of_error _ hc hl, Position.advanceAll_down]
    rfl
  | read c cs l hc hl ih =>
    rw [scanAt_of_read p hc hl, scanAt_of_read _ hc hl, Position.advanceAll_down, ih]
    rfl

/-! ## Streams -/

namespace TokenStream

theorem isMeaningful_down (scanned : Scanned) :
    isMeaningful (scanned.down n) = isMeaningful scanned := by
  cases scanned <;> rfl

theorem filter_down (scanned : List Scanned) :
    (scanned.map (Scanned.down n)).filter isMeaningful =
      (scanned.filter isMeaningful).map (Scanned.down n) := by
  rw [List.filter_map]
  congr 2
  funext found
  exact isMeaningful_down found

/-- A source always comes to an end that is of interest to a parser. -/
theorem filter_scanAt_ne_nil (p : Position) (cs : List Char) :
    (Token.scanAt p cs).filter isMeaningful ≠ [] := by
  obtain ⟨tokens, last, hscan, hread, hend⟩ := Token.scanAt_eq_append p cs
  rw [hscan, Token.filter_isMeaningful hread hend]
  exact List.append_ne_nil_of_right_ne_nil _ (List.cons_ne_nil last [])

@[simp] theorem symbol_down (s : TokenStream) : (s.down n).symbol = s.symbol := rfl

theorem nextSymbol_down (s : TokenStream) : (s.down n).nextSymbol = s.nextSymbol := by
  obtain ⟨current, last, rest⟩ := s
  cases rest with
  | nil => rfl
  | cons found rest => cases found <;> rfl

/-- The stream over what was scanned some lines further down. -/
theorem ofScanned_down {scanned : List Scanned} (hne : scanned.filter isMeaningful ≠ []) :
    ofScanned (scanned.map (Scanned.down n)) =
      ((ofScanned scanned).map (TokenStream.down n)).mapError (SyntaxError.down n) := by
  rw [ofScanned, ofScanned, filter_down]
  cases hscanned : scanned.filter isMeaningful with
  | nil => exact absurd hscanned hne
  | cons found rest => cases found <;> rfl

end TokenStream

/-! ## Readings -/

namespace Grammar

open Reading TokenStream Comparison

/-- A reading beside one some lines further down. Neither of the two ever goes its own way. -/
def linesDown (n : Nat) : Comparison where
  Alike s t := t = s.down n
  Over _ := False
  Same e f := f = e.down n
  Leaves _ := False
  Strays _ := False

theorem consume_down (s : TokenStream) :
    (linesDown n).Outcome (consume s) (consume (s.down n)) := by
  rw [consume, consume, symbol_down]
  by_cases hend : s.symbol = .endOfFile
  · rw [if_pos hend, if_pos hend]
    exact .inl ⟨rfl, rfl⟩
  rw [if_neg hend, if_neg hend]
  obtain ⟨current, last, rest⟩ := s
  cases rest with
  | nil => exact .inl ⟨rfl, rfl⟩
  | cons found rest =>
    cases found with
    | ok token => exact .inl ⟨rfl, rfl⟩
    | error e => exact .inl rfl

/-- Whether two tokens are on one line does not depend on where that line is. -/
theorem callGuard_down (s : TokenStream) :
    (linesDown n).Outcome (callGuard s) (callGuard (s.down n)) := by
  have hline : (s.down n).current.line = (s.down n).last.endLine ↔
      s.current.line = s.last.endLine := Nat.add_right_cancel_iff
  rw [callGuard_eq, callGuard_eq]
  by_cases h : s.current.line = s.last.endLine
  · rw [if_pos h, if_pos (hline.2 h)]
    exact .inl ⟨rfl, rfl⟩
  · rw [if_neg h, if_neg (mt hline.1 h)]
    exact .inl rfl

/-- Each step is the same further down. -/
def furtherDown (n : Nat) : Simulation where
  toComparison := linesDown n
  symbol_eq := by
    rintro s _ rfl
    rfl
  lexeme_eq := by
    rintro s _ rfl
    rfl
  consume := by
    rintro s _ rfl
    exact consume_down s
  fault := by
    rintro s _ cause rfl -
    rfl
  callGuard := by
    rintro s _ rfl -
    exact callGuard_down s
  lookahead := by
    rintro s _ rfl
    exact .inl (nextSymbol_down s).symm
  over_consume h := h.elim
  over_fault h := h.elim

/-- What was scanned some lines further down is read as the same, with the same errors that many
lines further down. -/
theorem ofScanned_down {α : Type} {x : Reading α} (hx : (linesDown n).Agrees x x)
    {scanned : List Scanned} (hne : scanned.filter isMeaningful ≠ []) :
    x.ofScanned (scanned.map (Scanned.down n)) =
      (x.ofScanned scanned).mapError (SyntaxError.down n) := by
  rw [Reading.ofScanned, Reading.ofScanned, TokenStream.ofScanned_down hne]
  cases TokenStream.ofScanned scanned with
  | error e => rfl
  | ok s =>
    have houtcome : (linesDown n).Outcome (x s) (x (s.down n)) := hx.alike rfl
    dsimp only [Except.map, Except.mapError]
    cases hs : x s with
    | ok a t =>
      cases hdown : x (s.down n) with
      | ok b u =>
        rw [hs, hdown] at houtcome
        obtain ⟨rfl, -⟩ := houtcome.resolve_right id
        rfl
      | error f u =>
        rw [hs, hdown] at houtcome
        exact houtcome.elim False.elim False.elim
    | error e t =>
      cases hdown : x (s.down n) with
      | ok b u =>
        rw [hs, hdown] at houtcome
        exact houtcome.elim
      | error f u =>
        rw [hs, hdown] at houtcome
        obtain rfl : f = e.down n := houtcome.resolve_right (by rintro (h | h) <;> exact h)
        rfl

end Grammar

namespace Block

/-- A first line for the system is passed over, and what is under it is scanned from there on. -/
theorem scanScript_firstLine {line : String} (h : '\n' ∉ line.toList) (source : String) :
    Token.scanScript ("#" ++ line ++ "\n" ++ source) =
      (Token.scan source).map (Scanned.down 1) := by
  have htext : ("#" ++ line ++ "\n" ++ source).toList =
      ('#' :: line.toList) ++ '\n' :: source.toList := by simp
  have hfirst : '\n' ∉ '#' :: line.toList := by simpa using h
  have htake : (('#' :: line.toList) ++ '\n' :: source.toList).takeWhile (· != '\n') =
      '#' :: line.toList :=
    Lexeme.takeWhile_append_of_ends
      (fun c hc => bne_iff_ne.2 fun heq => hfirst (heq ▸ hc)) (by simp)
  rw [Token.scanScript_of_hash (by rw [htext]; rfl), htext, htake, List.drop_left,
    Position.advanceAll_of_not_mem hfirst, Token.scanAt_of_blank _ (by decide), Token.scan_eq,
    ← Token.scanAt_down]
  rfl

/-- With a first line for the system, a script has the tree of the source without that line, or the
same error in the same column one line further down. -/
theorem parseScript_firstLine {line : String} (h : '\n' ∉ line.toList) (source : String)
    (levels : Nat) :
    parseScript ("#" ++ line ++ "\n" ++ source) levels =
      (parse source levels).mapError fun e => { e with line := e.line + 1 } := by
  rw [parseScript_eq, scanScript_firstLine h, parse_eq]
  exact Grammar.ofScanned_down (Grammar.agrees_chunk (c := Grammar.furtherDown 1) (.inl rfl))
    (TokenStream.filter_scanAt_ne_nil .start source.toList)

/-- A parenthesis that could start a new statement. -/
theorem parseScript_firstLine_call :
    '\n' ∉ "!/usr/bin/lua".toList ∧
      parseScript ("#" ++ "!/usr/bin/lua" ++ "\n" ++ "f\n(1)") 3 =
        .error ⟨.ambiguousCall "(", 3, 1⟩ := by
  have hline : '\n' ∉ "!/usr/bin/lua".toList := by decide
  have herror : parse "f\n(1)" 3 = .error ⟨.ambiguousCall "(", 2, 1⟩ := by cbv
  refine ⟨hline, ?_⟩
  rw [parseScript_firstLine hline, herror]
  rfl

end Block

end LuaLang
