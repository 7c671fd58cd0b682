import Mathlib
import LuaLang.Proofs.Scan.Steps

/-!
# Long brackets

Strings and comments in long brackets are scanned up to the first closing long bracket of the same
level, whatever else is in them, and scanning goes on right after it.

## Main definitions

* `Lexeme.Opens`: how strings and comments in long brackets start.
* `Lexeme.closing`: what ends them.
* `Lexeme.withoutLineEnd`: the source without a line end at its start.

## Main statements

* `Lexeme.Opens.read_eq`: what is read after a long bracket.
* `Token.long_bracket_ends_at_first_closer`: what is scanned from a long bracket on.
-/

namespace LuaLang

namespace Lexeme

/-! ## Brackets and what they enclose -/

/-- Strings in long brackets start with a long bracket, comments with two hyphens before it. -/
inductive Opens : Symbol → Nat → List Char → Prop where
  | string (level : Nat) : Opens .string level ('[' :: (List.replicate level '=' ++ ['[']))
  | comment (level : Nat) :
    Opens .comment level ('-' :: '-' :: '[' :: (List.replicate level '=' ++ ['[']))

/-- The closing long bracket of a level. -/
def closing (level : Nat) : List Char :=
  ']' :: closer level

/-- A source without the line end that it may start with. -/
def withoutLineEnd : List Char → List Char
  | '\r' :: '\n' :: cs => cs
  | '\r' :: cs => cs
  | '\n' :: cs => cs
  | cs => cs

variable {symbol : Symbol} {level : Nat} {start cs : List Char}

theorem drop_openingLineEnd (cs : List Char) : cs.drop (openingLineEnd cs) = withoutLineEnd cs := by
  fun_cases withoutLineEnd cs <;> simp_all [openingLineEnd]

theorem exists_lineEnd (cs : List Char) :
    ∃ lineEnd, cs = lineEnd ++ withoutLineEnd cs ∧ lineEnd.length = openingLineEnd cs := by
  have hle : openingLineEnd cs ≤ cs.length := by
    fun_cases openingLineEnd cs <;> simp
  refine ⟨cs.take (openingLineEnd cs), ?_, List.length_take_of_le hle⟩
  rw [← drop_openingLineEnd, List.take_append_drop]

theorem openLevel?_replicate (level : Nat) (cs : List Char) :
    openLevel? (List.replicate level '=' ++ '[' :: cs) = some level := by
  have hequals : (List.replicate level '=' ++ '[' :: cs).takeWhile (· = '=') =
      List.replicate level '=' := by
    rw [List.takeWhile_append_of_pos (by simp)]
    simp
  rw [openLevel?, hequals]
  simp

theorem drop_replicate (level : Nat) (cs : List Char) :
    (List.replicate level '=' ++ '[' :: cs).drop (level + 1) = cs := by
  rw [List.append_cons]
  exact List.drop_left' (by simp)

/-- What starts with a long bracket, with or without hyphens, is read as a lexeme in long
brackets. -/
theorem Opens.read_eq (h : Opens symbol level start) (cs : List Char) :
    ∃ c rest, start ++ cs = c :: rest ∧ Number.isBlank c = false ∧
      read c rest = readBracketed symbol level start.length cs := by
  cases h with
  | string =>
    refine ⟨'[', List.replicate level '=' ++ '[' :: cs, by simp, by decide, ?_⟩
    have hlong : read '[' (List.replicate level '=' ++ '[' :: cs) =
        readLongString (List.replicate level '=' ++ '[' :: cs) := by
      cases level <;> rfl
    rw [hlong, readLongString, openLevel?_replicate]
    dsimp only
    rw [drop_replicate]
    simp
  | comment =>
    refine ⟨'-', '-' :: '[' :: (List.replicate level '=' ++ '[' :: cs), by simp, by decide, ?_⟩
    change readComment ('[' :: (List.replicate level '=' ++ '[' :: cs)) = _
    rw [readComment, openLevel?_replicate]
    dsimp only
    rw [drop_replicate]
    simp

/-- The text in long brackets is what precedes the first closing long bracket, and the lexeme
reaches up to the end of that bracket. -/
theorem readBracketed_of_closing (symbol : Symbol) (opened : Nat)
    (h : closing level <:+: withoutLineEnd cs) :
    ∃ text taken rest, IsFirst (closing level) (withoutLineEnd cs) text rest ∧
      cs = taken ++ rest ∧
      readBracketed symbol level opened cs =
        .ok ⟨symbol, String.ofList text, opened + taken.length⟩ := by
  obtain ⟨lineEnd, hcs, hlineEnd⟩ := exists_lineEnd cs
  obtain ⟨text, rest, hfirst, hbody⟩ := bracketBody_of_closing h "" (opened + openingLineEnd cs)
  refine ⟨text, lineEnd ++ (text ++ closing level), rest, hfirst, ?_, ?_⟩
  · rw [List.append_assoc, List.append_assoc]
    exact hcs.trans (congrArg (lineEnd ++ ·) hfirst.eq)
  · have hlength : (lineEnd ++ (text ++ closing level)).length =
        openingLineEnd cs + text.length + ((closer level).length + 1) := by
      rw [List.length_append, List.length_append, closing, List.length_cons, hlineEnd, add_assoc]
    rw [readBracketed_eq, drop_openingLineEnd, hbody, String.empty_append, hlength]
    simp only [Nat.add_assoc]

theorem readBracketed_of_no_closing (symbol : Symbol) (opened : Nat)
    (h : ¬ closing level <:+: withoutLineEnd cs) :
    readBracketed symbol level opened cs = .error ⟨.unfinishedLongBracket, 0⟩ := by
  rw [readBracketed_eq, drop_openingLineEnd, bracketBody_of_no_closing h]

end Lexeme

namespace Token

open Lexeme

/-- What is scanned from a lexeme on that takes up the characters of `taken`. -/
theorem scanAt_of_read_append (p : Position) {c : Char} (hc : Number.isBlank c = false)
    {cs taken rest : List Char} (hcs : c :: cs = taken ++ rest) {symbol : Symbol} {text : String}
    (h : Lexeme.read c cs = .ok ⟨symbol, text, taken.length⟩) :
    scanAt p (c :: cs) =
      .ok ⟨symbol, text, p.line, p.column, (p.advanceAll taken).line⟩ ::
        scanAt (p.advanceAll taken) rest := by
  rw [scanAt_of_read p hc h, hcs, List.take_left, List.drop_left]

variable {symbol : Symbol} {level : Nat} {start cs : List Char}

/-- With a closing long bracket, a token is scanned that ends at the first one. -/
theorem scanAt_of_closing (h : Opens symbol level start) (p : Position)
    (hclosing : closing level <:+: withoutLineEnd cs) :
    ∃ text taken rest, IsFirst (closing level) (withoutLineEnd cs) text rest ∧
      start ++ cs = taken ++ rest ∧
      scanAt p (start ++ cs) =
        .ok ⟨symbol, String.ofList text, p.line, p.column, (p.advanceAll taken).line⟩ ::
          scanAt (p.advanceAll taken) rest := by
  obtain ⟨c, source, hsource, hblank, hread⟩ := h.read_eq cs
  obtain ⟨text, taken, rest, hfirst, hcs, hlexeme⟩ :=
    readBracketed_of_closing symbol start.length hclosing
  have hall : start ++ cs = start ++ taken ++ rest := by rw [List.append_assoc, ← hcs]
  rw [hlexeme, ← List.length_append] at hread
  refine ⟨text, start ++ taken, rest, hfirst, hall, ?_⟩
  rw [hsource]
  exact scanAt_of_read_append p hblank (hsource.symm.trans hall) hread

theorem scanAt_of_no_closing (h : Opens symbol level start) (p : Position)
    (hclosing : ¬ closing level <:+: withoutLineEnd cs) :
    scanAt p (start ++ cs) = [.error ⟨.unfinishedLongBracket, p.line, p.column⟩] := by
  obtain ⟨c, source, hsource, hblank, hread⟩ := h.read_eq cs
  rw [readBracketed_of_no_closing symbol start.length hclosing] at hread
  rw [hsource, scanAt_of_error p hblank hread]
  rfl

/-- A string in long brackets, and a comment in long brackets, too, ends at the first closing long
bracket of its level. Its text is what precedes that bracket, without a line end at the start, and
scanning goes on right after the bracket. Exactly if there is no such bracket, it is unfinished,
which is reported where it starts. -/
theorem long_bracket_ends_at_first_closer (h : Opens symbol level start) (p : Position)
    (cs : List Char) :
    (closing level <:+: withoutLineEnd cs →
      ∃ text taken rest, IsFirst (closing level) (withoutLineEnd cs) text rest ∧
        start ++ cs = taken ++ rest ∧
        scanAt p (start ++ cs) =
          .ok ⟨symbol, String.ofList text, p.line, p.column, (p.advanceAll taken).line⟩ ::
            scanAt (p.advanceAll taken) rest) ∧
    (scanAt p (start ++ cs) = [.error ⟨.unfinishedLongBracket, p.line, p.column⟩] ↔
      ¬ closing level <:+: withoutLineEnd cs) := by
  refine ⟨scanAt_of_closing h p, ?_, scanAt_of_no_closing h p⟩
  intro herror hclosing
  obtain ⟨text, taken, rest, -, -, hscan⟩ := scanAt_of_closing h p hclosing
  rw [herror] at hscan
  cases hscan

/-- The first bracket has too many equals signs after it, the second one starts what ends the
string, and the third one comes too late. The comment has no closing long bracket of its level. -/
theorem long_bracket_ends_at_first_closer_overlapping :
    scan "[=[\r\n]==]=]=]" = .ok ⟨.string, "]==", 1, 1, 2⟩ :: scanAt ⟨2, 7⟩ "=]".toList ∧
      scan "--[==[\n]=]===]]" = [.error ⟨.unfinishedLongBracket, 1, 1⟩] := by
  refine ⟨?_, ?_⟩
  · have hfirst : IsFirst (closing 1) (withoutLineEnd "\r\n]==]=]=]".toList) "]==".toList
        "=]".toList := ⟨by decide, by decide⟩
    obtain ⟨text, taken, rest, hfound, htaken, hscan⟩ :=
      (long_bracket_ends_at_first_closer (.string 1) .start "\r\n]==]=]=]".toList).1 (by decide)
    obtain ⟨rfl, rfl⟩ := hfirst.unique hfound
    obtain rfl : "[=[\r\n]==]=]".toList = taken := List.append_cancel_right htaken
    exact hscan
  · exact (long_bracket_ends_at_first_closer (.comment 2) .start "\n]=]===]]".toList).2.2
      (by decide)

end Token

end LuaLang
