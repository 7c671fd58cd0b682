import Mathlib
import LuaLang.CommandLine.Session
import LuaLang.Proofs.Grammar.Accounting
import LuaLang.Proofs.Printing.Trees

/-!
# Printing and parsing again

The canonical source of a tree that was parsed parses into the same tree. What was parsed is proper
and its names and numbers were read from a source, so its printed text spells its writing, and the
levels that were enough for the tree are enough for it again.

## Main statements

* `Spells.ofScanned`: the stream over a whole text passes what the text spells.
* `Writes.lexical`: what was read from a source can be written again.
* `Block.parse_print`: printing and parsing again gives the same tree.
-/

namespace LuaLang

open TokenStream

/-! ## Names and numbers that were read -/

theorem Terminal.Matches.lexical {terminal : Terminal} {token : Token}
    (h : terminal.Matches token) (hread : token.IsRead) : terminal.Lexical := by
  cases terminal with
  | mark y => trivial
  | string text => trivial
  | name text => exact h.2 ▸ hread.isName h.1
  | number value =>
    obtain ⟨c, cs, htext, hc⟩ := hread.number_start h.1
    exact Number.isLiteral_of_ofLiteral? htext hc h.2

/-- What was read from a source can be written again. -/
theorem Writes.lexical {w : List Stretch} {tokens : List Token} (h : Writes w tokens)
    (hread : ∀ token ∈ tokens, token.IsRead) : Lexical w := by
  obtain ⟨parts, hholds, hmatch⟩ := h
  have hterminals : ∀ terminal ∈ parts.flatten, terminal.Lexical := by
    generalize parts.flatten = terminals at hmatch
    induction hmatch with
    | nil => simp
    | cons hfirst _ ih =>
      rw [List.forall_mem_cons] at hread ⊢
      exact ⟨hfirst.lexical hread.1, ih hread.2⟩
  intro terminal hmem
  refine hterminals terminal ?_
  clear hmatch hterminals
  induction hholds with
  | nil => cases hmem
  | cons hfirst _ ih =>
    rw [List.flatten_cons, List.mem_append]
    obtain rfl | hmem := List.mem_cons.1 hmem
    · exact .inl (by simp [show _ = [terminal] from hfirst])
    · exact .inr (ih hmem)

/-! ## Whole texts -/

/-- A stream over a whole text passes what the text spells and comes to the end of the file. -/
theorem Spells.ofScanned {l r : Edge} {text : String} {w : List Stretch}
    (h : Spells l text.toList w r) (hl : l.near = false) (hw : Lexical w)
    (hr : r.next none .endOfFile = true) :
    ∃ s t, TokenStream.ofScanned (Token.scan text) = .ok s ∧ Spans w s t ∧
      t.symbol = .endOfFile ∧ l.next text.toList.head? s.symbol = true := by
  have hpass : ∀ last : Token, ∃ s t : TokenStream, s.At .start last text.toList ∧ Spans w s t ∧
      t.symbol = .endOfFile ∧ l.next text.toList.head? s.symbol = true := by
    intro last
    obtain ⟨last', -, hspans⟩ :=
      h.spans hw text.toList (.refl _) .start last fun hnear => by simp [hl] at hnear
    obtain ⟨s, hs, hnext, hst⟩ := hspans [] _ (.endOfFile _ last') hr
    rw [List.append_nil] at hs hnext
    exact ⟨s, _, hs, hst, rfl, hnext⟩
  -- The stream starts after a token that is made up on the line of the first one.
  obtain ⟨first, -, ⟨hfirst, -⟩, -⟩ := hpass (.endOfFile 1 0)
  obtain ⟨s, t, ⟨hs, hlast⟩, hst, ht, hnext⟩ := hpass (.endOfFile first.current.line 0)
  refine ⟨s, t, ?_, hst, ht, hnext⟩
  have hcurrent : s.current = first.current := by
    rw [hs, List.cons.injEq, Except.ok.injEq] at hfirst
    exact hfirst.1
  rw [TokenStream.ofScanned, Token.scan_eq, hs]
  dsimp only
  rw [hcurrent, ← hlast, ← hcurrent]

/-- A text that starts a line is not taken for a line that is meant for the system. -/
theorem not_hash_of_leadsLine {text : String} {s : TokenStream}
    (h : TokenStream.ofScanned (Token.scan text) = .ok s) (hs : s.symbol.leadsLine = true) :
    text.toList.head? ≠ some '#' := by
  intro hhash
  obtain ⟨cs, hcs⟩ := List.head?_eq_some_iff.1 hhash
  obtain ⟨c, rest, hmark, hblank, hread⟩ := (Lexeme.spelt_mark (s := .hash) (by decide)).read
  cases hmark
  rw [← List.nil_append cs] at hcs
  rw [TokenStream.ofScanned, Token.scan_eq, hcs,
    Token.scanAt_of_read .start hblank (hread cs fun _ _ => rfl),
    List.filter_cons_of_pos (by rfl)] at h
  cases h
  cases hs

/-! ## The round trip -/

/-- A parsed tree was read from a scan that went through: it is proper, it has levels enough, and
its names and numbers can be written. -/
theorem Block.lexical_of_scanned {p : Position} {cs : List Char} {levels : Nat} {b : Block}
    (h : (Grammar.chunk levels).ofScanned (Token.scanAt p cs) = .ok b) :
    (b.need ≤ levels ∧ b.Proper) ∧ Lexical b.writing := by
  obtain ⟨hfits, s, t, hs, hspan, ht⟩ := Reading.ofScanned_chunk_eq_ok.1 h
  obtain ⟨tokens, last, -, -, hread, hwrites⟩ := hspan.writes_scanned hs ht
  exact ⟨hfits, hwrites.lexical fun token htoken => hread token (List.mem_of_mem_filter htoken)⟩

/-- The canonical source of a parsed tree, read with the same levels, gives the same tree, as a
source and as a script, so showing it in canonical form shows it as it is. -/
theorem Block.parse_print {source : String} {levels : Nat} {b : Block}
    (h : Block.parse source levels = .ok b ∨ Block.parseScript source levels = .ok b) :
    Block.parse b.print levels = .ok b ∧ Block.parseScript b.print levels = .ok b ∧
      Session.view levels b.print .canonical = Session.done b.print ∧
      b.print.toList.head? ≠ some '#' := by
  obtain ⟨hfits, hlexical⟩ : (b.need ≤ levels ∧ b.Proper) ∧ Lexical b.writing := by
    obtain h | h := h
    · rw [parse_eq] at h
      exact lexical_of_scanned h
    · obtain ⟨p, cs, hscan⟩ := Token.scanScript_eq source
      rw [parseScript_eq, hscan] at h
      exact lexical_of_scanned h
  obtain ⟨s, t, hs, hst, ht, hline⟩ := (b.spells hfits.2).ofScanned rfl hlexical rfl
  have hhash := not_hash_of_leadsLine hs hline
  have hparse : Block.parse b.print levels = .ok b := by
    rw [parse_eq]
    exact Reading.ofScanned_chunk_eq_ok.2 ⟨hfits, s, t, hs, hst, ht⟩
  have hscript : Block.parseScript b.print levels = .ok b := by
    rw [Block.parseScript, Token.scanScript_eq_scan hhash]
    exact hparse
  refine ⟨hparse, hscript, ?_, hhash⟩
  rw [Session.view, hscript]
  simp

theorem Block.parse_print_guards : ∃ b : Block,
    Block.parse "local x=- -y;(f)'a'" 9 = .ok b ∧
      Block.parse b.print 9 = .ok b ∧ Block.parseScript b.print 9 = .ok b ∧
      Session.view 9 b.print .canonical = Session.done b.print ∧
      b.print.toList.head? ≠ some '#' := by
  have h : Block.parse "local x=- -y;(f)'a'" 9 = .ok (.mk [.localAssign ["x"]
    [.unary .negate (.unary .negate (.prefixed (.var (.name "y"))))], .call (.function
      (.paren (.prefixed (.var (.name "f")))) (.string "a"))] .falls) := by cbv
  exact ⟨_, h, Block.parse_print (.inl h)⟩

end LuaLang
