import Mathlib
import LuaLang.Proofs.Grammar.Depth
import LuaLang.Proofs.Grammar.Lockstep

/-!
# The number of levels is exact

A tree is read with any number of levels from its need on, and with fewer the reading fails for want
of levels. Nothing else depends on how many levels there are: a reading that fails in another way
fails in that way with more levels too.

The parser counts the levels that are open. Where it stands does not matter: a block or an
expression has the levels that are left up to the limit, and closes what it has opened, also when it
fails.

## Main definitions

* `ExactLevels`: results for each number of levels that depend on it in this way only.
* `fewerLevels`: a reading beside one with more levels.
* `Parser.KeepsDepth`: parses that close what they have opened.

## Main statements

* `Grammar.levels_exact`: whole sources, blocks and expressions.
-/

namespace LuaLang

/-- What a reading gives on a stream: the result and the stream after it, or an error. -/
def Reading.on {α : Type} (reading : Reading α) (s : TokenStream) :
    Except SyntaxError (α × TokenStream) :=
  match reading s with
  | .ok a t => .ok (a, t)
  | .error e _ => .error e

/-- After the parse as many levels are open as before it, whether it has succeeded or failed. -/
structure Parser.KeepsDepth {α : Type} (parse : Parsing α) : Prop where
  ok : ∀ {p q : Parser} {a : α}, parse p = .ok a q → q.depth = p.depth
  error : ∀ {p q : Parser} {e : SyntaxError}, parse p = .error e q → q.depth = p.depth

/-- A parse that takes over what a reading does to the stream keeps the depth. -/
theorem Parser.keepsDepth_of_resume {α : Type} {parse : Parsing α} {reading : Parser → Reading α}
    (h : ∀ p, parse p = p.resume (reading p p.stream)) : KeepsDepth parse where
  ok {p q a} hparse := by
    rw [h p] at hparse
    cases hresult : reading p p.stream <;> rw [hresult] at hparse <;> cases hparse
    rfl
  error {p q e} hparse := by
    rw [h p] at hparse
    cases hresult : reading p p.stream <;> rw [hresult] at hparse <;> cases hparse
    rfl

namespace Grammar

open Reading TokenStream Comparison

variable {α : Type}

/-- The results for each number of levels are the same from the need on, below it the levels run
out, and any other error stays with more levels. -/
structure ExactLevels (need : α → Nat) (result : Nat → Except SyntaxError α) : Prop where
  enough : ∀ {n m a}, result n = .ok a → need a ≤ m → result m = .ok a
  few : ∀ {n m a}, result n = .ok a → m < need a →
    ∃ e, result m = .error e ∧ e.message = "chunk has too many syntax levels"
  other : ∀ {n m e}, result m = .error e → e.message ≠ "chunk has too many syntax levels" →
    m ≤ n → result n = .error e

/-! ## Two numbers of levels side by side -/

/-- A reading beside one with more levels, on the same stream: the first may run out of levels. -/
def fewerLevels : Simulation where
  Alike s t := s = t
  Over _ := False
  Same e f := e = f
  Leaves e := e.cause = .tooManyLevels
  Strays _ := False
  symbol_eq h := h ▸ rfl
  lexeme_eq h := h ▸ rfl
  consume {s t} h := by
    subst h
    cases Reading.consume s with
    | ok => exact .inl ⟨rfl, rfl⟩
    | error => exact .inl rfl
  fault h _ := h ▸ rfl
  callGuard {s t} h _ := by
    subst h
    cases Grammar.callGuard s with
    | ok => exact .inl ⟨rfl, rfl⟩
    | error => exact .inl rfl
  lookahead h := .inl (h ▸ rfl)
  over_consume h := h.elim
  over_fault h := h.elim

/-- An error is one for want of levels, or it stays with more levels. -/
theorem error_of_agrees {x x' : Reading α} (h : fewerLevels.Agrees x x') {s t : TokenStream}
    {e : SyntaxError} (hx : x s = .error e t) :
    e.cause = .tooManyLevels ∨ ∃ u, x' s = .error e u := by
  have hst : fewerLevels.Outcome (x s) (x' s) := h.alike rfl
  rw [hx] at hst
  rcases hst.of_error with hcause | ⟨f, u, hx', rfl | hstrays⟩
  · exact .inl hcause
  · exact .inr ⟨u, hx'⟩
  · exact hstrays.elim

theorem levels_of_le {m n : Nat} (h : m ≤ n) : Levels fewerLevels m n :=
  .inr ⟨h, fun _ he => he⟩

theorem message_of_tooManyLevels {e : SyntaxError} (h : e.cause = .tooManyLevels) :
    e.message = "chunk has too many syntax levels" := by
  rw [SyntaxError.message, h]
  rfl

/-- Results are exact if trees are read from their need on, and an error that is not for want of
levels stays. -/
theorem exactLevels_of_need {need : α → Nat} {result : Nat → Except SyntaxError α}
    (hok : ∀ {n a}, result n = .ok a → need a ≤ n ∧ ∀ m, need a ≤ m → result m = .ok a)
    (herror : ∀ {m n e}, m ≤ n → result m = .error e →
      e.cause = .tooManyLevels ∨ result n = .error e) : ExactLevels need result where
  enough h hm := (hok h).2 _ hm
  few {n m a} h hm := by
    have hn := (hok h).1
    cases hresult : result m with
    | ok b =>
      -- The tree for `m` levels would be read with `n` levels too, so it would be the same one.
      have hb := (hok hresult).2 n ((hok hresult).1.trans (by omega))
      rw [h] at hb
      cases hb
      have := (hok hresult).1
      omega
    | error e =>
      rcases herror (show m ≤ n by omega) hresult with hcause | hn
      · exact ⟨e, rfl, message_of_tooManyLevels hcause⟩
      · rw [h] at hn
        cases hn
  other h hmessage hle := by
    rcases herror hle h with hcause | hn
    · exact absurd (message_of_tooManyLevels hcause) hmessage
    · exact hn

/-! ## Whole sources, blocks and expressions -/

theorem on_eq_ok {x : Reading α} {s t : TokenStream} {a : α} :
    x.on s = .ok (a, t) ↔ x s = .ok a t := by
  unfold Reading.on
  cases x s <;> simp

theorem on_of_agrees {x x' : Reading α} (h : fewerLevels.Agrees x x') {s : TokenStream}
    {e : SyntaxError} (hx : x.on s = .error e) : e.cause = .tooManyLevels ∨ x'.on s = .error e := by
  unfold Reading.on at hx ⊢
  cases hresult : x s with
  | ok a t =>
    rw [hresult] at hx
    cases hx
  | error f t =>
    rw [hresult] at hx
    cases hx
    refine (error_of_agrees h hresult).imp_right ?_
    rintro ⟨u, hu⟩
    rw [hu]

/-- Readings on a stream are exact if each tree is read just when there are levels enough for it. -/
theorem exactLevels_on {need : α → Nat} {reading : Nat → Reading α}
    {reads : α → TokenStream → TokenStream → Prop}
    (hreads : ∀ {n a s t}, reading n s = .ok a t ↔ need a ≤ n ∧ reads a s t)
    (hagrees : ∀ {m n}, m ≤ n → fewerLevels.Agrees (reading m) (reading n)) (s : TokenStream) :
    ExactLevels (fun read : α × TokenStream => need read.1) fun n => (reading n).on s := by
  refine exactLevels_of_need (fun {n read} h => ?_) fun hle h => on_of_agrees (hagrees hle) h
  obtain ⟨a, t⟩ := read
  obtain ⟨hneed, hread⟩ := hreads.1 (on_eq_ok.1 h)
  exact ⟨hneed, fun m hm => on_eq_ok.2 (hreads.2 ⟨hm, hread⟩)⟩

theorem exactLevels_ofScanned (scanned : List Scanned) :
    ExactLevels Block.need fun levels => (chunk levels).ofScanned scanned := by
  refine exactLevels_of_need (fun {n b} h => ?_) fun {m n e} hle h => ?_
  · obtain ⟨⟨hneed, hproper⟩, hspans⟩ := ofScanned_chunk_eq_ok.1 h
    exact ⟨hneed, fun m hm => ofScanned_chunk_eq_ok.2 ⟨⟨hm, hproper⟩, hspans⟩⟩
  · rcases ofScanned_eq_error.1 h with hstart | ⟨s, t, hs, hresult⟩
    · exact .inr (ofScanned_eq_error.2 (.inl hstart))
    · refine (error_of_agrees (agrees_chunk (levels_of_le hle)) hresult).imp_right ?_
      rintro ⟨u, hu⟩
      exact ofScanned_eq_error.2 (.inr ⟨s, u, hs, hu⟩)

/-- Whatever the tokens are, the need of a tree says exactly how many levels it takes to parse it,
and no other error depends on the limit. The same holds of each single block and expression, on a
stream that is anywhere. In the parser, a block or an expression has the levels that are left at the
depth reached so far, and that depth is there again after it, whether it has succeeded or failed. -/
theorem levels_exact :
    (∀ scanned : List Scanned,
      ExactLevels Block.need fun limit => Parser.parse scanned limit) ∧
    (∀ s : TokenStream, ExactLevels (fun read : Block × TokenStream => read.1.need)
      fun levels => Reading.on (block levels) s) ∧
    (∀ s : TokenStream, ExactLevels (fun read : Expression × TokenStream => read.1.need)
      fun levels => (expression levels).on s) ∧
    (∀ p : Parser, Parser.block p = p.resume (block (p.limit - p.depth) p.stream) ∧
      Parser.expression p = p.resume (expression (p.limit - p.depth) p.stream)) ∧
    Parser.KeepsDepth Parser.block ∧ Parser.KeepsDepth Parser.expression := by
  have hblock := Parser.keepsDepth_of_resume Parser.block_eq_resume
  have hexpression := Parser.keepsDepth_of_resume Parser.expression_eq_resume
  refine ⟨fun scanned => ?_, ?_, ?_,
    fun p => ⟨Parser.block_eq_resume p, Parser.expression_eq_resume p⟩, hblock, hexpression⟩
  · simpa only [Parser.parse_eq] using exactLevels_ofScanned scanned
  · have hreads : ∀ {n b s t}, block n s = .ok b t ↔
        b.need ≤ n ∧ (b.Proper ∧ Spans b.writing s t) := by
      intro n b s t
      rw [block_eq_ok, and_assoc]
    exact exactLevels_on hreads fun hle => (agreesWith (levels_of_le hle)).blocks
  · have hreads : ∀ {n e s t}, expression n s = .ok e t ↔
        e.need ≤ n ∧ (e.Proper 0 ∧ Spans e.writing s t ∧
          (e.Stops t.symbol ∧ t.symbol.Below 0)) := by
      intro n e s t
      rw [expression_eq_ok, and_assoc]
    exact exactLevels_on hreads fun hle => (agreesWith (levels_of_le hle)).places 0

end Grammar

end LuaLang
