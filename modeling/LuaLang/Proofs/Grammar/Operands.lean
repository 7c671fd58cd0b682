import Mathlib
import LuaLang.Proofs.Grammar.Rows

/-!
# What expressions are read from

The rules for function bodies, arguments, prefix expressions and operands are exact if the readings
they are given are. An operand and the operators after it make an exact reading of a place: going
left to right, what has been read so far is always a proper tree, and a proper tree is what its own
writing makes of it.

## Main statements

* `prefixExpression_eq_ok`, `operandWith_eq_ok`: prefix expressions and operands.
* `readsExpression_place`: expressions in a place of any power.
-/

namespace LuaLang.Grammar

open Reading TokenStream

variable {n : Nat} {expression tight : Reading Expression} {block : Reading Block}
  {s t : TokenStream}

theorem functionBody_eq_ok (hb : ReadsBlock n block) {body : FunctionBody} :
    functionBody block s = .ok body t ↔
      (body.need ≤ n ∧ body.Proper) ∧ Spans body.writing s t := by
  obtain ⟨names, varargs, body⟩ := body
  simp only [functionBody, monadLift_self, bind_eq_ok, pure_eq_ok,
    expect_eq_ok (y := .leftParen) (by decide), expect_eq_ok (y := .rightParen) (by decide),
    expect_eq_ok (y := .endWord) (by decide), hb _, FunctionBody.need, FunctionBody.Proper,
    FunctionBody.writing, spans_cons, spans_append, spans_nil, Stretch.mark_passes,
    FunctionBody.mk.injEq]
  constructor
  · rintro ⟨_, u, hu, ⟨names', varargs'⟩, v, hv, _, w, ⟨hvs, hw⟩, body', x, ⟨hbody, hx⟩, _, y, hy,
      ⟨rfl, rfl, rfl⟩, rfl⟩
    exact ⟨hbody, u, hu, v, parameters_sound hv, w, ⟨hvs, hw⟩, x, hx, y, hy, rfl⟩
  · rintro ⟨hbody, u, hu, v, hv, w, ⟨hvs, hw⟩, x, hx, y, hy, rfl⟩
    exact ⟨(), u, hu, (names, varargs), v, parameters_complete hv hvs, (), w, ⟨hvs, hw⟩, body, x,
      ⟨hbody, hx⟩, (), y, hy, ⟨rfl, rfl, rfl⟩, rfl⟩

/-! ## Prefix expressions -/

theorem arguments_sound (he : ReadsExpression n 0 expression) {a : Arguments}
    (h : arguments expression s = .ok a t) :
    (a.need ≤ n ∧ a.Proper) ∧ Spans a.writing s t := by
  simp only [arguments, monadLift_self] at h
  rw [bind_of_ok symbol_eq] at h
  cases hs : s.symbol
  case leftParen =>
    rw [hs] at h
    obtain ⟨_, _, hguard, h⟩ := bind_eq_ok.1 h
    obtain ⟨hline, rfl⟩ := callGuard_eq_ok.1 hguard
    obtain ⟨_, u, hu, h⟩ := bind_eq_ok.1 h
    have hu := (consume_eq_ok (by simp [hs])).1 hu
    rw [bind_of_ok symbol_eq] at h
    split at h
    · next hclose =>
      obtain ⟨_, _, hnil, h⟩ := bind_eq_ok.1 h
      obtain ⟨rfl, rfl⟩ := pure_eq_ok.1 hnil
      obtain ⟨_, v, hv, hr⟩ := bind_eq_ok.1 h
      obtain ⟨rfl, rfl⟩ := pure_eq_ok.1 hr
      have hv := (expect_eq_ok (by decide)).1 hv
      simp only [Arguments.need, Arguments.Proper, Arguments.writing, Expression.needAll,
        Expression.ProperAll, Expression.writings, row]
      exact ⟨⟨Nat.zero_le n, trivial⟩, u, ⟨hs, hline, hu⟩, v, hv, rfl⟩
    · obtain ⟨values, v, hvalues, h⟩ := bind_eq_ok.1 h
      obtain ⟨_, w, hw, hr⟩ := bind_eq_ok.1 h
      obtain ⟨rfl, rfl⟩ := pure_eq_ok.1 hr
      obtain ⟨-, hfits, hrow, -⟩ := (expressions_eq_ok he).1 hvalues
      have hw := (expect_eq_ok (by decide)).1 hw
      rw [Arguments.need, Arguments.Proper, Arguments.writing]
      exact ⟨hfits, u, ⟨hs, hline, hu⟩, spans_append.2 ⟨v, hrow, w, hw, rfl⟩⟩
  case leftBrace =>
    rw [hs] at h
    obtain ⟨all, u, hall, hr⟩ := bind_eq_ok.1 h
    obtain ⟨rfl, rfl⟩ := pure_eq_ok.1 hr
    obtain ⟨hfits, hw⟩ := (table_eq_ok he).1 hall
    rw [Arguments.need, Arguments.Proper, Arguments.writing]
    exact ⟨hfits, hw⟩
  case string =>
    rw [hs] at h
    obtain ⟨text, u, hu, hr⟩ := bind_eq_ok.1 h
    obtain ⟨rfl, rfl⟩ := pure_eq_ok.1 hr
    obtain ⟨htext, hu⟩ := (consumeLexeme_eq_ok (by simp [hs])).1 hu
    rw [Arguments.need, Arguments.Proper, Arguments.writing]
    exact ⟨⟨Nat.zero_le n, trivial⟩, u, ⟨⟨hs, htext⟩, hu⟩, rfl⟩
  all_goals
    rw [hs] at h
    exact absurd h unexpected_ne_ok

theorem arguments_complete (he : ReadsExpression n 0 expression) {a : Arguments}
    (hneed : a.need ≤ n) (hproper : a.Proper) (h : Spans a.writing s t) :
    arguments expression s = .ok a t := by
  simp only [arguments, monadLift_self]
  rw [bind_of_ok symbol_eq]
  cases a with
  | table all =>
    rw [Arguments.need] at hneed
    rw [Arguments.Proper] at hproper
    rw [Arguments.writing] at h
    have hs : s.symbol = .leftBrace := by
      obtain ⟨u, hu, -⟩ := h
      exact hu.1
    rw [hs]
    exact bind_eq_ok.2 ⟨all, t, (table_eq_ok he).2 ⟨⟨hneed, hproper⟩, h⟩, rfl⟩
  | string text =>
    rw [Arguments.writing] at h
    obtain ⟨u, ⟨⟨hs, htext⟩, hu⟩, rfl⟩ := h
    have hs : s.symbol = .string := hs
    rw [hs]
    exact bind_eq_ok.2 ⟨text, u, htext ▸ consumeLexeme_of_next hu, rfl⟩
  | list values =>
    rw [Arguments.need] at hneed
    rw [Arguments.Proper] at hproper
    rw [Arguments.writing] at h
    obtain ⟨u, ⟨hs, hline, hu⟩, h⟩ := h
    obtain ⟨v, hrow, w, ⟨hclose, hw⟩, rfl⟩ := spans_append.1 h
    have hclose : v.symbol = .rightParen := hclose
    rw [hs]
    refine bind_eq_ok.2 ⟨(), s, callGuard_eq_ok.2 ⟨hline, rfl⟩, ?_⟩
    refine bind_eq_ok.2 ⟨(), u, hu.2, ?_⟩
    rw [bind_of_ok symbol_eq]
    cases values with
    | nil =>
      rw [Expression.writings] at hrow
      cases hrow
      rw [if_pos hclose]
      exact bind_eq_ok.2 ⟨[], u, rfl, bind_eq_ok.2 ⟨(), w, expect_of_next hclose hw, rfl⟩⟩
    | cons e rest =>
      have hopen : u.symbol ≠ .rightParen := by
        rw [Expression.writings] at hrow
        obtain ⟨x, hx, -⟩ := spans_append.1 hrow
        intro hs
        have := e.startsExpression_of_spans hx
        rw [hs] at this
        cases this
      have hc : v.symbol.Closes := by rw [hclose]; decide
      rw [if_neg hopen]
      refine bind_eq_ok.2 ⟨e :: rest, v, (expressions_eq_ok he).2 ⟨by simp, ⟨hneed, hproper⟩, hrow,
        hc.rowStops (by simp [hclose]) _⟩, ?_⟩
      exact bind_eq_ok.2 ⟨(), w, expect_of_next hclose hw, rfl⟩

theorem arguments_eq_ok (he : ReadsExpression n 0 expression) {a : Arguments} :
    arguments expression s = .ok a t ↔ (a.need ≤ n ∧ a.Proper) ∧ Spans a.writing s t :=
  ⟨arguments_sound he, fun ⟨⟨hneed, hproper⟩, h⟩ => arguments_complete he hneed hproper h⟩

/-- What a prefix expression starts with. -/
def IsPrimary : PrefixExpression → Prop
  | .var (.name _) => True
  | .paren _ => True
  | _ => False

theorem primary_eq_ok (he : ReadsExpression n 0 expression) {p : PrefixExpression} :
    primary expression s = .ok p t ↔
      IsPrimary p ∧ (p.need ≤ n ∧ p.Proper) ∧ Spans p.writing s t := by
  simp only [primary, monadLift_self]
  rw [bind_of_ok symbol_eq]
  constructor
  · intro h
    cases hs : s.symbol
    case name =>
      rw [hs] at h
      obtain ⟨text, u, hu, hr⟩ := bind_eq_ok.1 h
      obtain ⟨rfl, rfl⟩ := pure_eq_ok.1 hr
      obtain ⟨htext, hu⟩ := (consumeLexeme_eq_ok (by simp [hs])).1 hu
      simp only [IsPrimary, PrefixExpression.need, Variable.need, PrefixExpression.Proper,
        Variable.Proper, PrefixExpression.writing, Variable.writing]
      exact ⟨trivial, ⟨Nat.zero_le n, trivial⟩, u, ⟨⟨hs, htext⟩, hu⟩, rfl⟩
    case leftParen =>
      rw [hs] at h
      obtain ⟨_, u, hu, h⟩ := bind_eq_ok.1 h
      obtain ⟨value, v, hv, h⟩ := bind_eq_ok.1 h
      obtain ⟨_, w, hw, hr⟩ := bind_eq_ok.1 h
      obtain ⟨rfl, rfl⟩ := pure_eq_ok.1 hr
      have hu := (consume_eq_ok (by simp [hs])).1 hu
      obtain ⟨hfits, hv, -⟩ := (he _ _ _).1 hv
      have hw := (expect_eq_ok (by decide)).1 hw
      rw [PrefixExpression.need, PrefixExpression.Proper, PrefixExpression.writing]
      exact ⟨trivial, hfits, u, ⟨hs, hu⟩, spans_append.2 ⟨v, hv, w, hw, rfl⟩⟩
    all_goals
      rw [hs] at h
      exact absurd h unexpected_ne_ok
  · rintro ⟨hp, ⟨hneed, hproper⟩, h⟩
    cases p with
    | var target =>
      cases target with
      | name text =>
        simp only [PrefixExpression.writing, Variable.writing] at h
        obtain ⟨u, ⟨⟨hs, htext⟩, hu⟩, rfl⟩ := h
        have hs : s.symbol = .name := hs
        have htext : s.current.lexeme = text := htext
        rw [hs]
        exact bind_eq_ok.2 ⟨text, u, htext ▸ consumeLexeme_of_next hu, rfl⟩
      | index | field => exact False.elim hp
    | paren value =>
      rw [PrefixExpression.need] at hneed
      rw [PrefixExpression.Proper] at hproper
      rw [PrefixExpression.writing] at h
      obtain ⟨u, ⟨hs, hu⟩, h⟩ := h
      obtain ⟨v, hv, w, ⟨hclose, hw⟩, rfl⟩ := spans_append.1 h
      have hs : s.symbol = .leftParen := hs
      have hclose : v.symbol = .rightParen := hclose
      have hc : v.symbol.Closes := by rw [hclose]; decide
      rw [hs]
      refine bind_eq_ok.2 ⟨(), u, hu.2, bind_eq_ok.2 ⟨value, v, ?_, ?_⟩⟩
      · exact (he _ _ _).2 ⟨⟨hneed, hproper⟩, hv, hc.stops _, hc.below 0⟩
      · exact bind_eq_ok.2 ⟨(), w, expect_of_next hclose hw, rfl⟩
    | call => exact False.elim hp

/-- The prefix expression and what it becomes by one index or call, which is written after it. -/
inductive Extends (object : PrefixExpression) : PrefixExpression → List Stretch → Prop where
  | index (key : Expression) :
    Extends object (.var (.index object key))
      (.mark .leftBracket :: (key.writing ++ [.mark .rightBracket]))
  | field (text : String) : Extends object (.var (.field object text)) [.mark .dot, .name text]
  | method (text : String) (a : Arguments) :
    Extends object (.call (.method object text a)) (.mark .colon :: .name text :: a.writing)
  | call (a : Arguments) : Extends object (.call (.function object a)) a.writing

theorem Extends.writing_eq {object p : PrefixExpression} {ext : List Stretch}
    (h : Extends object p ext) : p.writing = object.writing ++ ext := by
  cases h <;> simp [PrefixExpression.writing, Variable.writing, Call.writing]

theorem Arguments.symbol_of_spans {a : Arguments} (h : Spans a.writing s t) :
    s.symbol = .leftParen ∨ s.symbol = .leftBrace ∨ s.symbol = .string := by
  cases a with
  | list values =>
    rw [Arguments.writing] at h
    obtain ⟨u, hu, -⟩ := h
    exact .inl hu.1
  | table all =>
    rw [Arguments.writing] at h
    obtain ⟨u, hu, -⟩ := h
    exact .inr (.inl hu.1)
  | string text =>
    rw [Arguments.writing] at h
    obtain ⟨u, hu, -⟩ := h
    exact .inr (.inr hu.1.1)

theorem Extends.size_lt {object p : PrefixExpression} {ext : List Stretch}
    (hext : Extends object p ext) (h : Spans ext s t) : t.size < s.size := by
  cases hext with
  | index key => exact Spans.size_lt h
  | field text => exact Spans.size_lt h
  | method text a => exact Spans.size_lt h
  | call a =>
    cases a with
    | list values =>
      rw [Arguments.writing] at h
      obtain ⟨u, hu, h⟩ := h
      exact h.size_le.trans_lt hu.2.2.size_lt
    | table all =>
      rw [Arguments.writing] at h
      exact Spans.size_lt h
    | string text =>
      rw [Arguments.writing] at h
      exact Spans.size_lt h

/-- The three kinds of arguments are read by one rule. -/
theorem suffixCall_sound (he : ReadsExpression n 0 expression) {object p : PrefixExpression}
    {more : Bool}
    (h : (do return (.call (.function object (← arguments expression)), true) :
      Reading (PrefixExpression × Bool)) s = .ok (p, more) t) :
    more = true ∧ ∃ ext, Extends object p ext ∧
      (object.need ≤ n ∧ object.Proper → p.need ≤ n ∧ p.Proper) ∧ Spans ext s t := by
  obtain ⟨a, u, ha, hr⟩ := bind_eq_ok.1 h
  obtain ⟨hr, rfl⟩ := pure_eq_ok.1 hr
  cases hr
  obtain ⟨⟨an, ap⟩, aw⟩ := (arguments_eq_ok he).1 ha
  refine ⟨rfl, _, .call a, ?_, aw⟩
  rintro ⟨hneed, hproper⟩
  simp only [PrefixExpression.need, Call.need, PrefixExpression.Proper, Call.Proper]
  exact ⟨by omega, hproper, ap⟩

theorem suffix_sound (he : ReadsExpression n 0 expression) {object p : PrefixExpression}
    {more : Bool} (h : suffix expression object s = .ok (p, more) t) :
    (more = true ∧ ∃ ext, Extends object p ext ∧
      (object.need ≤ n ∧ object.Proper → p.need ≤ n ∧ p.Proper) ∧ Spans ext s t) ∨
      (more = false ∧ p = object ∧ s = t ∧ s.symbol.startsSuffix = false) := by
  simp only [suffix, monadLift_self] at h
  rw [bind_of_ok symbol_eq] at h
  cases hs : s.symbol
  case leftBracket =>
    rw [hs] at h
    obtain ⟨_, u, hu, h⟩ := bind_eq_ok.1 h
    obtain ⟨key, v, hv, h⟩ := bind_eq_ok.1 h
    obtain ⟨_, w, hw, hr⟩ := bind_eq_ok.1 h
    obtain ⟨hr, rfl⟩ := pure_eq_ok.1 hr
    cases hr
    have hu := (consume_eq_ok (by simp [hs])).1 hu
    obtain ⟨⟨kn, kp⟩, hv, -⟩ := (he _ _ _).1 hv
    have hw := (expect_eq_ok (by decide)).1 hw
    refine .inl ⟨rfl, _, .index key, ?_, u, ⟨hs, hu⟩, spans_append.2 ⟨v, hv, w, hw, rfl⟩⟩
    rintro ⟨hneed, hproper⟩
    simp only [PrefixExpression.need, Variable.need, PrefixExpression.Proper, Variable.Proper]
    exact ⟨by omega, hproper, kp⟩
  case dot =>
    rw [hs] at h
    obtain ⟨_, u, hu, h⟩ := bind_eq_ok.1 h
    obtain ⟨text, v, hv, hr⟩ := bind_eq_ok.1 h
    obtain ⟨hr, rfl⟩ := pure_eq_ok.1 hr
    cases hr
    have hu := (consume_eq_ok (by simp [hs])).1 hu
    obtain ⟨-, hv, -⟩ := expectName_eq_ok.1 hv
    refine .inl ⟨rfl, _, .field text, ?_, u, ⟨hs, hu⟩, hv⟩
    simp only [PrefixExpression.need, Variable.need, PrefixExpression.Proper, Variable.Proper]
    exact id
  case colon =>
    rw [hs] at h
    obtain ⟨_, u, hu, h⟩ := bind_eq_ok.1 h
    obtain ⟨text, v, hv, h⟩ := bind_eq_ok.1 h
    obtain ⟨a, w, ha, hr⟩ := bind_eq_ok.1 h
    obtain ⟨hr, rfl⟩ := pure_eq_ok.1 hr
    cases hr
    have hu := (consume_eq_ok (by simp [hs])).1 hu
    obtain ⟨-, ⟨_, hname, rfl⟩, -⟩ := expectName_eq_ok.1 hv
    obtain ⟨⟨an, ap⟩, aw⟩ := (arguments_eq_ok he).1 ha
    refine .inl ⟨rfl, _, .method text a, ?_, u, ⟨hs, hu⟩, _, hname, aw⟩
    rintro ⟨hneed, hproper⟩
    simp only [PrefixExpression.need, Call.need, PrefixExpression.Proper, Call.Proper]
    exact ⟨by omega, hproper, ap⟩
  case leftParen | leftBrace | string =>
    rw [hs] at h
    exact .inl (suffixCall_sound he h)
  all_goals
    rw [hs] at h
    obtain ⟨hr, rfl⟩ := pure_eq_ok.1 h
    cases hr
    exact .inr ⟨rfl, rfl, rfl, by simp only [Symbol.startsSuffix]⟩

theorem suffix_complete (he : ReadsExpression n 0 expression) {object p : PrefixExpression}
    {ext : List Stretch} (hext : Extends object p ext) (hneed : p.need ≤ n) (hproper : p.Proper)
    (h : Spans ext s t) : suffix expression object s = .ok (p, true) t := by
  simp only [suffix, monadLift_self]
  rw [bind_of_ok symbol_eq]
  cases hext with
  | index key =>
    simp only [PrefixExpression.need, Variable.need, PrefixExpression.Proper,
      Variable.Proper] at hneed hproper
    obtain ⟨u, ⟨hs, hu⟩, h⟩ := h
    obtain ⟨v, hv, w, ⟨hclose, hw⟩, rfl⟩ := spans_append.1 h
    have hs : s.symbol = .leftBracket := hs
    have hclose : v.symbol = .rightBracket := hclose
    have hc : v.symbol.Closes := by rw [hclose]; decide
    have hkey := (he _ _ _).2 ⟨⟨by omega, hproper.2⟩, hv, hc.stops key, hc.below 0⟩
    rw [hs]
    exact bind_eq_ok.2 ⟨(), u, hu.2, bind_eq_ok.2 ⟨key, v, hkey,
      bind_eq_ok.2 ⟨(), w, expect_of_next hclose hw, rfl⟩⟩⟩
  | field text =>
    obtain ⟨u, ⟨hs, hu⟩, hname⟩ := h
    have hs : s.symbol = .dot := hs
    rw [hs]
    exact bind_eq_ok.2 ⟨(), u, hu.2, bind_eq_ok.2 ⟨text, t,
      expectName_eq_ok.2 ⟨trivial, hname, trivial⟩, rfl⟩⟩
  | method text a =>
    simp only [PrefixExpression.need, Call.need, PrefixExpression.Proper,
      Call.Proper] at hneed hproper
    obtain ⟨u, ⟨hs, hu⟩, v, hname, ha⟩ := h
    have hs : s.symbol = .colon := hs
    have ha := (arguments_eq_ok he).2 ⟨⟨by omega, hproper.2⟩, ha⟩
    rw [hs]
    exact bind_eq_ok.2 ⟨(), u, hu.2, bind_eq_ok.2 ⟨text, v,
      expectName_eq_ok.2 ⟨trivial, ⟨v, hname, rfl⟩, trivial⟩, bind_eq_ok.2 ⟨a, t, ha, rfl⟩⟩⟩
  | call a =>
    simp only [PrefixExpression.need, Call.need, PrefixExpression.Proper,
      Call.Proper] at hneed hproper
    have hs := Arguments.symbol_of_spans h
    have ha := (arguments_eq_ok he).2 ⟨⟨by omega, hproper.2⟩, h⟩
    obtain hs | hs | hs := hs <;> rw [hs] <;> exact bind_eq_ok.2 ⟨a, t, ha, rfl⟩

theorem suffix_of_not_startsSuffix {object : PrefixExpression}
    (hs : s.symbol.startsSuffix = false) :
    suffix expression object s = .ok (object, false) s := by
  simp only [suffix, monadLift_self]
  rw [bind_of_ok symbol_eq]
  cases hy : s.symbol
  case leftBracket | dot | colon | leftParen | leftBrace | string =>
    rw [hy] at hs
    cases hs
  all_goals rfl

theorem progresses_suffix (he : ReadsExpression n 0 expression) :
    Progresses (suffix expression) := by
  intro object p s t h
  obtain ⟨-, ext, hext, -, hspan⟩ | ⟨hmore, -⟩ := suffix_sound he h
  · exact hext.size_lt hspan
  · cases hmore

theorem Extends.need_le {object p : PrefixExpression} {ext : List Stretch}
    (h : Extends object p ext) : object.need ≤ p.need := by
  cases h <;> simp only [PrefixExpression.need, Variable.need, Call.need] <;> omega

theorem Extends.proper {object p : PrefixExpression} {ext : List Stretch}
    (h : Extends object p ext) (hproper : p.Proper) : object.Proper := by
  cases h <;> simp only [PrefixExpression.Proper, Variable.Proper, Call.Proper] at hproper
  case field => exact hproper
  all_goals exact hproper.1

/-- Where reading what is extended comes down to the loop, so does reading the extension: the first
round of the loop reads the index or the call. -/
theorem prefixExpression_of_extends (he : ReadsExpression n 0 expression)
    {object p : PrefixExpression} {ext : List Stretch} (hext : Extends object p ext)
    (hneed : p.need ≤ n) (hproper : p.Proper) (h : Spans p.writing s t)
    (ih : ∀ {u}, Spans object.writing s u →
      prefixExpression expression s = loop (suffix expression) object u) :
    prefixExpression expression s = loop (suffix expression) p t := by
  rw [hext.writing_eq] at h
  obtain ⟨u, hu, h⟩ := spans_append.1 h
  have hstep := suffix_complete he hext hneed hproper h
  rw [ih hu, loop_of_more (progresses_suffix he) hstep]

/-- Reading the writing of a prefix expression comes down to the loop over what follows it. -/
theorem prefixExpression_of_spans (he : ReadsExpression n 0 expression) :
    (p : PrefixExpression) → p.need ≤ n → p.Proper → {s t : TokenStream} → Spans p.writing s t →
      prefixExpression expression s = loop (suffix expression) p t
  | .var (.name _), hneed, hproper, _, _, h =>
    bind_of_ok ((primary_eq_ok he).2 ⟨trivial, ⟨hneed, hproper⟩, h⟩)
  | .paren _, hneed, hproper, _, _, h =>
    bind_of_ok ((primary_eq_ok he).2 ⟨trivial, ⟨hneed, hproper⟩, h⟩)
  | .var (.index object key), hneed, hproper, _, _, h =>
    have hext : Extends object _ _ := .index key
    prefixExpression_of_extends he hext hneed hproper h
      (prefixExpression_of_spans he object (hext.need_le.trans hneed) (hext.proper hproper))
  | .var (.field object text), hneed, hproper, _, _, h =>
    have hext : Extends object _ _ := .field text
    prefixExpression_of_extends he hext hneed hproper h
      (prefixExpression_of_spans he object (hext.need_le.trans hneed) (hext.proper hproper))
  | .call (.function callee a), hneed, hproper, _, _, h =>
    have hext : Extends callee _ _ := .call a
    prefixExpression_of_extends he hext hneed hproper h
      (prefixExpression_of_spans he callee (hext.need_le.trans hneed) (hext.proper hproper))
  | .call (.method object text a), hneed, hproper, _, _, h =>
    have hext : Extends object _ _ := .method text a
    prefixExpression_of_extends he hext hneed hproper h
      (prefixExpression_of_spans he object (hext.need_le.trans hneed) (hext.proper hproper))

theorem prefixExpression_eq_ok (he : ReadsExpression n 0 expression) {p : PrefixExpression} :
    prefixExpression expression s = .ok p t ↔
      (p.need ≤ n ∧ p.Proper) ∧ Spans p.writing s t ∧ t.symbol.startsSuffix = false := by
  constructor
  · intro h
    obtain ⟨first, u, hfirst, h⟩ := bind_eq_ok.1 h
    obtain ⟨-, hfits, hspan⟩ := (primary_eq_ok he).1 hfirst
    refine loop_invariant (progresses_suffix he)
      (fun p u => (p.need ≤ n ∧ p.Proper) ∧ Spans p.writing s u)
      (fun p u => (p.need ≤ n ∧ p.Proper) ∧ Spans p.writing s u ∧ u.symbol.startsSuffix = false)
      ?_ ?_ ⟨hfits, hspan⟩ h
    · rintro object p u v ⟨hfits, hspan⟩ h
      obtain ⟨-, ext, hext, hkeeps, hv⟩ | ⟨hmore, -⟩ := suffix_sound he h
      · refine ⟨hkeeps hfits, ?_⟩
        rw [hext.writing_eq]
        exact spans_append.2 ⟨u, hspan, hv⟩
      · cases hmore
    · rintro object p u v ⟨hfits, hspan⟩ h
      obtain ⟨hmore, -⟩ | ⟨-, rfl, rfl, hu⟩ := suffix_sound he h
      · cases hmore
      · exact ⟨hfits, hspan, hu⟩
  · rintro ⟨⟨hneed, hproper⟩, hspan, ht⟩
    rw [prefixExpression_of_spans he p hneed hproper hspan]
    exact loop_of_done (progresses_suffix he) (suffix_of_not_startsSuffix ht)

/-! ## Operands -/

theorem numeral_eq_ok (hs : s.symbol = .number) {value : Number} :
    numeral s = .ok value t ↔ Spans [.one (.number value)] s t := by
  have hne : s.symbol ≠ .endOfFile := by simp [hs]
  have hspan : Spans [.one (.number value)] s t ↔
      Number.ofLiteral? s.current.lexeme = some value ∧ s.Next t := by
    simp only [spans_cons, spans_nil, exists_eq_right, Stretch.Passes, Terminal.Matches]
    exact ⟨fun h => h.imp_left And.right, fun h => h.imp_left fun hv => ⟨hs, hv⟩⟩
  rw [hspan, numeral]
  cases Number.ofLiteral? s.current.lexeme with
  | none => simp [fail_ne_ok]
  | some found =>
    simp only [bind_eq_ok, pure_eq_ok, consume_eq_ok hne, Option.some.injEq]
    constructor
    · rintro ⟨_, u, hu, rfl, rfl⟩
      exact ⟨rfl, hu⟩
    · rintro ⟨rfl, hu⟩
      exact ⟨(), t, hu, rfl, rfl⟩

/-- Not an operator with two operands. -/
def IsOperand : Expression → Prop
  | .binary .. => False
  | _ => True

/-- A reading of operands that is exact for those that `levels` levels are enough for. What power
the place of the operand has makes no difference. -/
def ReadsOperand (levels : Nat) (reading : Reading Expression) : Prop :=
  ∀ e s t, reading s = .ok e t ↔
    IsOperand e ∧ (e.need ≤ levels ∧ e.Proper 0) ∧ Spans e.writing s t ∧ e.Stops t.symbol

/-- The operand that an operator with one operand starts, if the symbol is one. -/
def unaryOperand (tight : Reading Expression) (y : Symbol) : Reading Expression :=
  match UnaryOp.ofSymbol? y with
  | some op => do consume; pure (.unary op (← tight))
  | none => unexpected

theorem unaryOperand_sound (hp : ReadsExpression n UnaryOp.power tight) {e : Expression}
    {y : Symbol} (hs : s.symbol = y) (hne : y ≠ .endOfFile) (h : unaryOperand tight y s = .ok e t) :
    IsOperand e ∧ (e.need ≤ n + 1 ∧ e.Proper 0) ∧ Spans e.writing s t ∧ e.Stops t.symbol := by
  cases hop : UnaryOp.ofSymbol? y with
  | none =>
    rw [unaryOperand, hop] at h
    exact absurd h unexpected_ne_ok
  | some op =>
    rw [unaryOperand, hop] at h
    obtain ⟨_, u, hu, h⟩ := bind_eq_ok.1 h
    obtain ⟨operand, v, hv, hr⟩ := bind_eq_ok.1 h
    obtain ⟨rfl, rfl⟩ := pure_eq_ok.1 hr
    have hu := (consume_eq_ok (hs ▸ hne)).1 hu
    obtain ⟨⟨hneed, hproper⟩, hspan, hstop, hbelow⟩ := (hp _ _ _).1 hv
    rw [Expression.need, Expression.Proper, Expression.writing, Expression.Stops]
    exact ⟨trivial, ⟨by omega, hproper⟩,
      ⟨u, ⟨hs.trans (UnaryOp.symbol_of_ofSymbol? hop), hu⟩, hspan⟩, hbelow, hstop⟩

/-- Words and the extra arguments are operands by themselves. -/
theorem wordOperand_sound {e word : Expression} {y : Symbol} (hs : s.symbol = y)
    (hne : y ≠ .endOfFile) (h : (do consume; pure word : Reading Expression) s = .ok e t)
    (hoperand : IsOperand word) (hneed : word.need = 1) (hproper : word.Proper 0)
    (hwriting : word.writing = [.mark y]) (hstops : ∀ x, word.Stops x) :
    IsOperand e ∧ (e.need ≤ n + 1 ∧ e.Proper 0) ∧ Spans e.writing s t ∧ e.Stops t.symbol := by
  obtain ⟨_, u, hu, hr⟩ := bind_eq_ok.1 h
  obtain ⟨rfl, rfl⟩ := pure_eq_ok.1 hr
  have hu := (consume_eq_ok (hs ▸ hne)).1 hu
  rw [hwriting]
  exact ⟨hoperand, ⟨by omega, hproper⟩, ⟨u, ⟨hs, hu⟩, rfl⟩, hstops _⟩

theorem operandWith_sound (he : ReadsExpression n 0 expression)
    (hp : ReadsExpression n UnaryOp.power tight) (hb : ReadsBlock n block) {e : Expression}
    (h : operandWith expression tight block s = .ok e t) :
    IsOperand e ∧ (e.need ≤ n + 1 ∧ e.Proper 0) ∧ Spans e.writing s t ∧ e.Stops t.symbol := by
  simp only [operandWith, monadLift_self] at h
  rw [bind_of_ok symbol_eq] at h
  cases hs : s.symbol
  case nilWord | trueWord | falseWord | dotDotDot =>
    rw [hs] at h
    exact wordOperand_sound hs (by decide) h trivial (by simp only [Expression.need])
      (by simp only [Expression.Proper]) (by simp [Expression.writing])
      (by simp [Expression.Stops])
  case number =>
    rw [hs] at h
    obtain ⟨value, u, hu, hr⟩ := bind_eq_ok.1 h
    obtain ⟨rfl, rfl⟩ := pure_eq_ok.1 hr
    simp only [IsOperand, Expression.need, Expression.Proper, Expression.writing, Expression.Stops]
    exact ⟨trivial, ⟨by omega, trivial⟩, (numeral_eq_ok hs).1 hu, trivial⟩
  case string =>
    rw [hs] at h
    obtain ⟨text, u, hu, hr⟩ := bind_eq_ok.1 h
    obtain ⟨rfl, rfl⟩ := pure_eq_ok.1 hr
    obtain ⟨htext, hu⟩ := (consumeLexeme_eq_ok (by simp [hs])).1 hu
    simp only [IsOperand, Expression.need, Expression.Proper, Expression.writing, Expression.Stops]
    exact ⟨trivial, ⟨by omega, trivial⟩, ⟨u, ⟨⟨hs, htext⟩, hu⟩, rfl⟩, trivial⟩
  case functionWord =>
    rw [hs] at h
    obtain ⟨_, u, hu, h⟩ := bind_eq_ok.1 h
    obtain ⟨body, v, hv, hr⟩ := bind_eq_ok.1 h
    obtain ⟨rfl, rfl⟩ := pure_eq_ok.1 hr
    have hu := (consume_eq_ok (by simp [hs])).1 hu
    obtain ⟨⟨hneed, hproper⟩, hspan⟩ := (functionBody_eq_ok hb).1 hv
    simp only [IsOperand, Expression.need, Expression.Proper, Expression.writing, Expression.Stops]
    exact ⟨trivial, ⟨by omega, hproper⟩, ⟨u, ⟨hs, hu⟩, hspan⟩, trivial⟩
  case name | leftParen =>
    rw [hs] at h
    obtain ⟨value, u, hu, hr⟩ := bind_eq_ok.1 h
    obtain ⟨rfl, rfl⟩ := pure_eq_ok.1 hr
    obtain ⟨⟨hneed, hproper⟩, hspan, hstop⟩ := (prefixExpression_eq_ok he).1 hu
    rw [Expression.need, Expression.Proper, Expression.writing, Expression.Stops]
    exact ⟨trivial, ⟨by omega, hproper⟩, hspan, hstop⟩
  case leftBrace =>
    rw [hs] at h
    obtain ⟨all, u, hu, hr⟩ := bind_eq_ok.1 h
    obtain ⟨rfl, rfl⟩ := pure_eq_ok.1 hr
    obtain ⟨⟨hneed, hproper⟩, hspan⟩ := (table_eq_ok he).1 hu
    simp only [IsOperand, Expression.need, Expression.Proper, Expression.writing, Expression.Stops]
    exact ⟨trivial, ⟨by omega, hproper⟩, hspan, trivial⟩
  case minus | notWord | hash =>
    rw [hs] at h
    exact unaryOperand_sound hp hs (by decide) h
  all_goals
    rw [hs] at h
    exact absurd h unexpected_ne_ok

theorem operandWith_complete (he : ReadsExpression n 0 expression)
    (hp : ReadsExpression n UnaryOp.power tight) (hb : ReadsBlock n block) {e : Expression}
    (hoperand : IsOperand e) (hneed : e.need ≤ n + 1) (hproper : e.Proper 0)
    (h : Spans e.writing s t) (hstop : e.Stops t.symbol) :
    operandWith expression tight block s = .ok e t := by
  simp only [operandWith, monadLift_self]
  rw [bind_of_ok symbol_eq]
  cases e with
  | binary op left right => exact absurd hoperand id
  | nil =>
    rw [Expression.writing] at h
    obtain ⟨u, ⟨hs, hu⟩, rfl⟩ := h
    have hs : s.symbol = .nilWord := hs
    rw [hs]
    exact bind_eq_ok.2 ⟨(), u, hu.2, rfl⟩
  | varargs =>
    rw [Expression.writing] at h
    obtain ⟨u, ⟨hs, hu⟩, rfl⟩ := h
    have hs : s.symbol = .dotDotDot := hs
    rw [hs]
    exact bind_eq_ok.2 ⟨(), u, hu.2, rfl⟩
  | boolean value =>
    rw [Expression.writing] at h
    obtain ⟨u, ⟨hs, hu⟩, rfl⟩ := h
    have hs : s.symbol = if value then .trueWord else .falseWord := hs
    cases value <;> rw [hs] <;> exact bind_eq_ok.2 ⟨(), u, hu.2, rfl⟩
  | number value =>
    rw [Expression.writing] at h
    have hs : s.symbol = .number := by
      obtain ⟨u, ⟨⟨hs, -⟩, -⟩, -⟩ := h
      exact hs
    have hvalue := (numeral_eq_ok hs).2 h
    rw [hs]
    exact bind_eq_ok.2 ⟨value, t, hvalue, rfl⟩
  | string text =>
    rw [Expression.writing] at h
    obtain ⟨u, ⟨⟨hs, htext⟩, hu⟩, rfl⟩ := h
    have hs : s.symbol = .string := hs
    rw [hs]
    exact bind_eq_ok.2 ⟨text, u, htext ▸ consumeLexeme_of_next hu, rfl⟩
  | function body =>
    rw [Expression.need] at hneed
    rw [Expression.Proper] at hproper
    rw [Expression.writing] at h
    obtain ⟨u, ⟨hs, hu⟩, h⟩ := h
    have hs : s.symbol = .functionWord := hs
    have hbody := (functionBody_eq_ok hb).2 ⟨⟨by omega, hproper⟩, h⟩
    rw [hs]
    exact bind_eq_ok.2 ⟨(), u, hu.2, bind_eq_ok.2 ⟨body, t, hbody, rfl⟩⟩
  | prefixed value =>
    rw [Expression.need] at hneed
    rw [Expression.Proper] at hproper
    rw [Expression.writing] at h
    rw [Expression.Stops] at hstop
    have hvalue := (prefixExpression_eq_ok he).2 ⟨⟨by omega, hproper⟩, h, hstop⟩
    obtain hs | hs := value.symbol_of_spans h <;> rw [hs] <;>
      exact bind_eq_ok.2 ⟨value, t, hvalue, rfl⟩
  | table all =>
    rw [Expression.need] at hneed
    rw [Expression.Proper] at hproper
    rw [Expression.writing] at h
    have hs : s.symbol = .leftBrace := by
      obtain ⟨u, hu, -⟩ := h
      exact hu.1
    have hall := (table_eq_ok he).2 ⟨⟨by omega, hproper⟩, h⟩
    rw [hs]
    exact bind_eq_ok.2 ⟨all, t, hall, rfl⟩
  | unary op operand =>
    rw [Expression.need] at hneed
    rw [Expression.Proper] at hproper
    rw [Expression.writing] at h
    rw [Expression.Stops] at hstop
    obtain ⟨u, ⟨hs, hu⟩, h⟩ := h
    have hs : s.symbol = op.symbol := hs
    have hvalue := (hp _ _ _).2 ⟨⟨by omega, hproper⟩, h, hstop.2, hstop.1⟩
    cases op <;> rw [hs] <;>
      exact bind_eq_ok.2 ⟨(), u, hu.2, bind_eq_ok.2 ⟨operand, t, hvalue, rfl⟩⟩

theorem readsOperand_operandWith (he : ReadsExpression n 0 expression)
    (hp : ReadsExpression n UnaryOp.power tight) (hb : ReadsBlock n block) :
    ReadsOperand (n + 1) (operandWith expression tight block) := fun _ _ _ =>
  ⟨operandWith_sound he hp hb, fun ⟨hoperand, ⟨hneed, hproper⟩, h, hstop⟩ =>
    operandWith_complete he hp hb hoperand hneed hproper h hstop⟩

end LuaLang.Grammar
