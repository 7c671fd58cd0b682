import Mathlib
import LuaLang.Proofs.Number.Texts
import LuaLang.Proofs.Scan.Lexemes
import LuaLang.Tree.Grammar

/-!
# Literals of strings and numbers

Any string, whether it comes from a source or not, has a literal that is scanned as that string. The
literals of numbers that can be scanned mean what the same text does as a string, up to numbers
that are too large: as a string all of those are infinite, as a literal only some are.

## Main statements

* `Token.scan_stringLiteral_append`: the literal of a string is scanned as that string.
* `Token.number_literals_agree`: literals of numbers, and strings that are numbers.
-/

namespace LuaLang.Token

/-! ## Strings -/

/-- The literal of a string is scanned as one token on one line whose text is that string. What
follows is scanned from its first character, whatever it is. There is no line end in the literal. -/
theorem scan_stringLiteral_append (p : Position) (text after : String) :
    scanAt p (stringLiteral text ++ after).toList =
        .ok ⟨.string, text, p.line, p.column, p.line⟩ ::
          scanAt ⟨p.line, p.column + (stringLiteral text).length⟩ after.toList ∧
      '\n' ∉ (stringLiteral text).toList ∧ '\r' ∉ (stringLiteral text).toList := by
  have hspelt := Lexeme.spelt_string text
  refine ⟨?_, fun hmem => (hspelt.plain _ hmem).1 rfl, fun hmem => (hspelt.plain _ hmem).2 rfl⟩
  have hends : ∀ c ∈ after.toList.head?, (fun _ => true) c = true := fun _ _ => rfl
  have hscan := hspelt.scanAt_append hends p
  rw [hspelt.advanceAll_eq, String.length_toList] at hscan
  rw [String.toList_append]
  exact hscan

/-! ## Numbers -/

variable {p : Position} {cs : List Char} {token : Token}

/-- What is scanned in front of the end of the file was read. -/
theorem isRead_of_mem_scanAt (h : .ok token ∈ scanAt p cs) (hs : token.symbol ≠ .endOfFile) :
    token.IsRead := by
  obtain ⟨tokens, last, hscan, hread, hend⟩ := scanAt_eq_append p cs
  rw [hscan, List.mem_append, List.mem_singleton] at h
  rcases h with h | rfl
  · obtain ⟨read, hmem, heq⟩ := List.mem_map.1 h
    cases heq
    exact hread token hmem
  · exact absurd hend hs

/-- The lexeme of a number has no blanks in it, and does not start with a sign. -/
theorem IsRead.number_chars (h : token.IsRead) (hs : token.symbol = .number) :
    ∃ c cs, token.lexeme.toList = c :: cs ∧ (c.isDigit = true ∨ c = '.') ∧
      ∀ d ∈ c :: cs, Number.isBlank d = false := by
  obtain ⟨c, cs, hc, htext⟩ := h.number_eq hs
  obtain ⟨rest, hrest⟩ := hc.numeral_eq
  refine ⟨c, rest, htext.trans hrest, hc.imp_right And.left, fun d hd => ?_⟩
  rw [← hrest] at hd
  exact Lexeme.isBlank_of_mem_numeral hd

/-- What a literal of a number stands for, the same text is worth as a string, even if that is
infinite. The other way round, a text that is worth a finite number as a string is accepted as a
literal of that number. -/
theorem number_literals_agree (h : .ok token ∈ scanAt p cs) (hs : token.symbol = .number) :
    (∀ x, Number.ofLiteral? token.lexeme = some x → Number.ofText? token.lexeme = some x) ∧
    ∀ x, Number.ofText? token.lexeme = some x → x.isFinite = true →
      Number.ofLiteral? token.lexeme = some x ∧
        ∀ s : TokenStream, s.current = token →
          Grammar.numeral s = (do Reading.consume; pure x : Reading Number) s := by
  have hread : token.IsRead := isRead_of_mem_scanAt h (by rw [hs]; decide)
  obtain ⟨c, rest, htext, hc, hblank⟩ := hread.number_chars hs
  refine ⟨fun x hx => Number.ofText?_of_ofLiteral? htext hc hblank hx, fun x hx hfinite => ?_⟩
  have hliteral := Number.ofLiteral?_of_ofText? htext hc hblank hx hfinite
  refine ⟨hliteral, fun s hcurrent => ?_⟩
  rw [Grammar.numeral, hcurrent, hliteral]

/-- An exponent that is too large, and hexadecimal digits. -/
theorem number_literals_agree_overflow :
    .ok ⟨.number, "1e500", 1, 1, 1⟩ ∈ scan "1e500" ∧ .ok ⟨.number, "0x10", 1, 1, 1⟩ ∈ scan "0x10" ∧
      Number.ofText? "1e500" = some (Number.infinite false) ∧
      Number.ofLiteral? "0x10" = some (Number.ofNat 16) := by
  have hlarge : .ok ⟨.number, "1e500", 1, 1, 1⟩ ∈ scan "1e500" := by
    rw [show scan "1e500" = [.ok ⟨.number, "1e500", 1, 1, 1⟩, .ok ⟨.endOfFile, "", 1, 6, 1⟩] by cbv]
    exact List.mem_cons_self
  have hsixteen : .ok ⟨.number, "0x10", 1, 1, 1⟩ ∈ scan "0x10" := by
    rw [show scan "0x10" = [.ok ⟨.number, "0x10", 1, 1, 1⟩, .ok ⟨.endOfFile, "", 1, 5, 1⟩] by cbv]
    exact List.mem_cons_self
  refine ⟨hlarge, hsixteen, ?_, ?_⟩
  · exact (number_literals_agree hlarge rfl).1 _
      (Number.ofLiteral?_numberLiteral (x := .infinite false) (.inl rfl))
  · have hdigits : List.Forall₂ (Number.StandsFor 16) ['1', '0'] [1, 0] :=
      .cons (by decide) (.cons (by decide) .nil)
    have htext : Number.ofText? "0x10" = some (Number.ofNat 16) :=
      Number.readDigits?_eq_ofNat (by decide) (by decide) (by decide) hdigits (by decide)
    have hfinite : (Number.ofNat 16).isFinite = true := by
      obtain ⟨rank, hrank, -⟩ := Number.exists_ofNat_eq (n := 16) (by decide)
      rw [hrank]
      rfl
    exact ((number_literals_agree hsixteen rfl).2 _ htext hfinite).1

end LuaLang.Token
