import Mathlib
import LuaLang.Proofs.Grammar.Depth
import LuaLang.Proofs.Scan.Steps

/-!
# Every token is accounted for

A parser that succeeds has passed all tokens of the source, each of them as a terminal in the
writing of the tree. So no token is lost or made up, none changes its place, and the scan went
through without an error.

## Main definitions

* `TokenStream.Path`: the tokens between two positions of a stream.
* `Writes`: tokens that are a writing of a tree.

## Main statements

* `Block.parse_accounts_for_tokens`: the tree of a source is a writing of its tokens.
-/

namespace LuaLang

open TokenStream

/-- The tokens that a stream passes to get from one position to another. -/
def TokenStream.Path : TokenStream → List Token → TokenStream → Prop
  | s, [], t => s = t
  | s, token :: rest, t => s.current = token ∧ ∃ u, s.Next u ∧ Path u rest t

theorem TokenStream.Path.append {s t u : TokenStream} {as bs : List Token} (h : s.Path as t)
    (g : t.Path bs u) : s.Path (as ++ bs) u := by
  induction as generalizing s with
  | nil =>
    cases h
    exact g
  | cons token rest ih =>
    obtain ⟨hs, v, hv, h⟩ := h
    exact ⟨hs, v, hv, ih h⟩

theorem TokenStream.Next.path {s t : TokenStream} (h : s.Next t) : s.Path [s.current] t :=
  ⟨rfl, t, h, rfl⟩

/-- Tokens that are a writing of stretches: each stretch holds some terminals, and those in a row
are the tokens. -/
def Writes (stretches : List Stretch) (tokens : List Token) : Prop :=
  ∃ parts, List.Forall₂ Stretch.Holds stretches parts ∧
    List.Forall₂ Terminal.Matches parts.flatten tokens

/-- The tokens that a stretch passes are what it holds. -/
theorem Stretch.Passes.path {stretch : Stretch} {s t : TokenStream} (h : stretch.Passes s t) :
    ∃ part tokens, stretch.Holds part ∧ List.Forall₂ Terminal.Matches part tokens ∧
      s.Path tokens t := by
  have one : ∀ {terminal : Terminal}, terminal.Matches s.current → s.Next t →
      List.Forall₂ Terminal.Matches [terminal] [s.current] ∧ s.Path [s.current] t :=
    fun hm hn => ⟨.cons hm .nil, hn.path⟩
  cases stretch with
  | one terminal => exact ⟨[terminal], _, rfl, one h.1 h.2⟩
  | callParen => exact ⟨[.mark .leftParen], _, rfl, one h.1 h.2.2⟩
  | separator =>
    obtain ⟨hs | hs, hn⟩ := h
    · exact ⟨[.mark .comma], _, .inl rfl, one hs hn⟩
    · exact ⟨[.mark .semicolon], _, .inr rfl, one hs hn⟩
  | trailing =>
    obtain ⟨-, rfl | ⟨hs | hs, hn⟩⟩ := h
    · exact ⟨[], [], .inl rfl, .nil, rfl⟩
    · exact ⟨[.mark .comma], _, .inr (.inl rfl), one hs hn⟩
    · exact ⟨[.mark .semicolon], _, .inr (.inr rfl), one hs hn⟩
  | semicolons =>
    obtain ⟨hrun, -⟩ := h
    clear one
    induction hrun with
    | refl => exact ⟨[], [], ⟨0, rfl⟩, .nil, rfl⟩
    | tail _ step ih =>
      obtain ⟨_, tokens, ⟨n, rfl⟩, hmatch, hpath⟩ := ih
      refine ⟨_, _, ⟨n + 1, rfl⟩, ?_, hpath.append step.2.path⟩
      rw [List.replicate_succ']
      exact List.rel_append hmatch (.cons step.1 .nil)
  | lastSemicolon =>
    obtain ⟨hs, hn⟩ | ⟨-, rfl⟩ := h
    · exact ⟨[.mark .semicolon], _, .inr rfl, one hs hn⟩
    · exact ⟨[], [], .inl rfl, .nil, rfl⟩
  | ahead allowed =>
    obtain ⟨-, rfl⟩ := h
    exact ⟨[], [], rfl, .nil, rfl⟩

theorem Spans.path {stretches : List Stretch} {s t : TokenStream} (h : Spans stretches s t) :
    ∃ tokens, Writes stretches tokens ∧ s.Path tokens t := by
  induction stretches generalizing s with
  | nil =>
    cases h
    exact ⟨[], ⟨[], .nil, .nil⟩, rfl⟩
  | cons stretch rest ih =>
    obtain ⟨u, hu, h⟩ := h
    obtain ⟨part, as, hholds, hmatch, hpath⟩ := hu.path
    obtain ⟨bs, ⟨parts, hrest, hflat⟩, hpath'⟩ := ih h
    exact ⟨as ++ bs, ⟨part :: parts, .cons hholds hrest, List.rel_append hmatch hflat⟩,
      hpath.append hpath'⟩

/-- A path to the end of the file passes all tokens, and nothing but the end comes after them. -/
theorem TokenStream.Path.eq_tokens {s t : TokenStream} {passed tokens : List Token} {last : Scanned}
    (h : s.Path passed t) (ht : t.symbol = .endOfFile)
    (hs : .ok s.current :: s.rest = tokens.map Except.ok ++ [last])
    (hread : ∀ token ∈ tokens, token.symbol ≠ .endOfFile) (hend : Token.IsScanEnd last) :
    passed = tokens ∧ last = .ok t.current := by
  induction passed generalizing s tokens with
  | nil =>
    cases h
    cases tokens with
    | nil =>
      rw [List.map_nil, List.nil_append, List.cons.injEq] at hs
      exact ⟨rfl, hs.1.symm⟩
    | cons token rest =>
      rw [List.map_cons, List.cons_append, List.cons.injEq, Except.ok.injEq] at hs
      exact absurd (hs.1 ▸ ht) (hread token (by simp))
  | cons token passed ih =>
    obtain ⟨rfl, u, hu, h⟩ := h
    cases tokens with
    | nil =>
      rw [List.map_nil, List.nil_append, List.cons.injEq] at hs
      rw [← hs.1] at hend
      exact absurd hend hu.1
    | cons token rest =>
      rw [List.map_cons, List.cons_append, List.cons.injEq, Except.ok.injEq] at hs
      obtain ⟨rfl, hrest⟩ := hs
      have hu' : .ok u.current :: u.rest = rest.map Except.ok ++ [last] := by
        obtain ⟨hr, -⟩ | ⟨token, more, hr, rfl⟩ := hu.cases
        · rw [hr] at hrest
          exact absurd hrest (by simp)
        · rw [← hrest, hr]
      obtain ⟨rfl, hlast⟩ := ih h hu' fun token htoken => hread token (by simp [htoken])
      exact ⟨rfl, hlast⟩

/-- The tokens of a scan that a parser looks at, in front of what ends the scan. -/
theorem Token.filter_isMeaningful {tokens : List Token} {last : Scanned}
    (hread : ∀ token ∈ tokens, token.IsRead) (hend : Token.IsScanEnd last) :
    (tokens.map Except.ok ++ [last]).filter isMeaningful =
      (tokens.filter fun token => token.symbol ≠ .comment).map Except.ok ++ [last] := by
  have hlast : isMeaningful last = true := by
    cases last with
    | error e => rfl
    | ok token =>
      have hs : token.symbol = .endOfFile := hend
      simp [isMeaningful, hs, Symbol.isMarker]
  rw [List.filter_append, List.filter_map, List.filter_singleton, hlast, cond_true]
  congr 2
  refine List.filter_congr fun token htoken => ?_
  have hmarker := (hread token htoken).symbol_facts.2
  rw [Bool.eq_iff_iff]
  simp [isMeaningful, ← hmarker]

/-- Where a reading succeeds on what was scanned, the scan went through, and the path from its
start to the end of the file passes all tokens but comments. -/
theorem Spans.writes_scanned {p : Position} {cs : List Char} {stretches : List Stretch}
    {s t : TokenStream} (hs : ofScanned (Token.scanAt p cs) = .ok s)
    (hspan : Spans stretches s t) (ht : t.symbol = .endOfFile) :
    ∃ (tokens : List Token) (last : Token),
      Token.scanAt p cs = (tokens ++ [last]).map .ok ∧ last.symbol = .endOfFile ∧
      (∀ token ∈ tokens, token.IsRead) ∧
      Writes stretches (tokens.filter fun token => token.symbol ≠ .comment) := by
  obtain ⟨tokens, last, hscan, hread, hend⟩ := Token.scanAt_eq_append p cs
  obtain ⟨passed, hwrites, hpath⟩ := hspan.path
  have hstart : .ok s.current :: s.rest =
      (tokens.filter fun token => token.symbol ≠ .comment).map Except.ok ++ [last] := by
    rw [← Token.filter_isMeaningful hread hend, ← hscan]
    rw [ofScanned] at hs
    split at hs
    · next hnil =>
      rw [hscan, Token.filter_isMeaningful hread hend] at hnil
      exact absurd hnil (by simp)
    · next token rest heq =>
      cases hs
      exact heq.symm
    · cases hs
  obtain ⟨rfl, rfl⟩ := hpath.eq_tokens ht hstart
    (fun token htoken => (hread token (List.mem_of_mem_filter htoken)).symbol_facts.1) hend
  exact ⟨tokens, t.current, by simp [hscan], ht, hread, hwrites⟩

/-- The scan of a source that was parsed reports no error, and its tokens but for comments, up to
the end of the file, are a writing of the tree. Besides what the tree fixes there are semicolons
before, between and after the statements of a block, and in a table semicolons for commas and a
separator after the last entry. -/
theorem Block.parse_accounts_for_tokens {source : String} {levels : Nat} {b : Block}
    (h : Block.parse source levels = .ok b) :
    ∃ (tokens : List Token) (last : Token),
      Token.scan source = (tokens ++ [last]).map .ok ∧ last.symbol = .endOfFile ∧
      (∀ token ∈ tokens, token.symbol ≠ .endOfFile) ∧
      Writes b.writing (tokens.filter fun token => token.symbol ≠ .comment) := by
  rw [parse_eq] at h
  obtain ⟨-, s, t, hs, hspan, ht⟩ := Reading.ofScanned_chunk_eq_ok.1 h
  obtain ⟨tokens, last, hscan, hlast, hread, hwrites⟩ := hspan.writes_scanned hs ht
  exact ⟨tokens, last, hscan, hlast, fun token htoken => (hread token htoken).symbol_facts.1,
    hwrites⟩

theorem Block.parse_accounts_for_tokens_table :
    ∃ (tokens : List Token) (last : Token),
      Token.scan "return \x7ba; b,\x7d;" = (tokens ++ [last]).map .ok ∧ last.symbol = .endOfFile ∧
      (∀ token ∈ tokens, token.symbol ≠ .endOfFile) ∧
      Writes (Block.mk [] (.returns [.table [.item (.prefixed (.var (.name "a"))),
        .item (.prefixed (.var (.name "b")))]])).writing
        (tokens.filter fun token => token.symbol ≠ .comment) := by
  have h : Block.parse "return \x7ba; b,\x7d;" 4 = .ok (.mk [] (.returns [.table
    [.item (.prefixed (.var (.name "a"))), .item (.prefixed (.var (.name "b")))]])) := by cbv
  exact Block.parse_accounts_for_tokens h

/-- The semicolons in front of the first statement have to be counted too: a source can consist of
one, and the tree of it has no statement that it could follow. -/
theorem Block.parse_lone_semicolon :
    ¬ ∀ (source : String) (levels : Nat) (b : Block), Block.parse source levels = .ok b →
      ∃ (tokens : List Token) (last : Token),
        Token.scan source = (tokens ++ [last]).map .ok ∧ last.symbol = .endOfFile ∧
        (∀ token ∈ tokens, token.symbol ≠ .endOfFile) ∧
        Writes b.writing.tail (tokens.filter fun token => token.symbol ≠ .comment) := by
  intro h
  obtain ⟨tokens, last, hscan, -, -, parts, hholds, hmatch⟩ := h ";" 1 (.mk [] .falls) (by cbv)
  have hscan' : Token.scan ";" =
      ([(⟨.semicolon, ";", 1, 1, 1⟩ : Token)] ++ [Token.endOfFile 1 2]).map .ok := by cbv
  rw [hscan', (List.map_injective_iff.2 fun _ _ => Except.ok.inj).eq_iff] at hscan
  obtain ⟨rfl, -⟩ := List.append_inj' hscan rfl
  rw [Block.writing, Statement.writingAll, Ending.writing] at hholds
  obtain ⟨part, hpart, rfl⟩ : ∃ part, part = [] ∧ parts = [part] := by
    cases hholds with
    | cons hfirst hrest =>
      cases hrest
      exact ⟨_, hfirst, rfl⟩
  rw [hpart] at hmatch
  cases hmatch

end LuaLang
