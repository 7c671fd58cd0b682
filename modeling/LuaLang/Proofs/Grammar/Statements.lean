import Mathlib
import LuaLang.Proofs.Grammar.Climbing

/-!
# What statements are read from

Each rule for a statement is exact if the readings of expressions and blocks that it is given are.
Where a rule has to look at what follows to know that a part has ended, the symbol after the part
closes it.

## Main statements

* `optional_eq_ok`: a part that may be left out.
* `ifStatement_eq_ok`, `forStatement_eq_ok` and so on: one for each rule.
* `returnStatement_eq_ok`: the ending of a block that gives values.
-/

namespace LuaLang.Grammar

open Reading TokenStream

variable {n : Nat} {expression : Reading Expression} {block : Reading Block}
  {s t : TokenStream} {st : Statement}

/-- An expression is read whole in front of a symbol that closes it. -/
theorem ReadsExpression.of_closes (he : ReadsExpression n 0 expression) {e : Expression}
    {y : Symbol} (hneed : e.need ≤ n) (hproper : e.Proper 0) (h : Spans e.writing s t)
    (ht : t.symbol = y) (hy : y.Closes) : expression s = .ok e t :=
  (he _ _ _).2 ⟨⟨hneed, hproper⟩, h, ht ▸ hy.stops e, ht ▸ hy.below 0⟩

/-! ## Blocks with a word before and after them -/

theorem doStatement_eq_ok (hb : ReadsBlock n block) :
    doStatement block s = .ok st t ↔ ∃ body, st = .doBlock body ∧
      (st.need ≤ n ∧ st.Proper) ∧ Spans st.writing s t := by
  simp only [doStatement, monadLift_self, bind_eq_ok, pure_eq_ok,
    expect_eq_ok (y := .doWord) (by decide), expect_eq_ok (y := .endWord) (by decide), hb _]
  constructor
  · rintro ⟨_, u, hu, body, v, ⟨hfits, hv⟩, _, w, hw, rfl, rfl⟩
    refine ⟨body, rfl, ?_⟩
    rw [Statement.need, Statement.Proper, Statement.writing]
    exact ⟨hfits, u, hu, spans_append.2 ⟨v, hv, w, hw, rfl⟩⟩
  · rintro ⟨body, rfl, hfits, h⟩
    rw [Statement.need, Statement.Proper] at hfits
    rw [Statement.writing] at h
    obtain ⟨u, hu, h⟩ := h
    obtain ⟨v, hv, w, hw, rfl⟩ := spans_append.1 h
    exact ⟨(), u, hu, body, v, ⟨hfits, hv⟩, (), w, hw, rfl, rfl⟩

theorem whileStatement_eq_ok (he : ReadsExpression n 0 expression) (hb : ReadsBlock n block) :
    whileStatement expression block s = .ok st t ↔ ∃ test body, st = .whileLoop test body ∧
      (st.need ≤ n ∧ st.Proper) ∧ Spans st.writing s t := by
  simp only [whileStatement, monadLift_self, bind_eq_ok, pure_eq_ok,
    expect_eq_ok (y := .whileWord) (by decide), expect_eq_ok (y := .doWord) (by decide),
    expect_eq_ok (y := .endWord) (by decide), hb _]
  constructor
  · rintro ⟨_, u, hu, test, v, hv, _, w, hw, body, x, ⟨⟨bn, bp⟩, hx⟩, _, y, hy, rfl, rfl⟩
    obtain ⟨⟨tn, tp⟩, hv, -⟩ := (he _ _ _).1 hv
    refine ⟨test, body, rfl, ?_⟩
    rw [Statement.need, Statement.Proper, Statement.writing]
    exact ⟨⟨by omega, tp, bp⟩, u, hu, spans_append.2 ⟨v, hv, w, hw,
      spans_append.2 ⟨x, hx, y, hy, rfl⟩⟩⟩
  · rintro ⟨test, body, rfl, ⟨hneed, hproper⟩, h⟩
    rw [Statement.need] at hneed
    rw [Statement.Proper] at hproper
    rw [Statement.writing] at h
    obtain ⟨u, hu, h⟩ := h
    obtain ⟨v, hv, w, hw, h⟩ := spans_append.1 h
    obtain ⟨x, hx, y, hy, rfl⟩ := spans_append.1 h
    exact ⟨(), u, hu, test, v, he.of_closes (by omega) hproper.1 hv hw.1 (by decide), (), w, hw,
      body, x, ⟨⟨by omega, hproper.2⟩, hx⟩, (), y, hy, rfl, rfl⟩

theorem repeatStatement_eq_ok (he : ReadsExpression n 0 expression) (hb : ReadsBlock n block) :
    repeatStatement expression block s = .ok st t ↔ ∃ body test, st = .repeatLoop body test ∧
      (st.need ≤ n ∧ st.Proper) ∧ Spans st.writing s t ∧ st.Stops t.symbol := by
  simp only [repeatStatement, monadLift_self, bind_eq_ok, pure_eq_ok,
    expect_eq_ok (y := .repeatWord) (by decide), expect_eq_ok (y := .untilWord) (by decide), hb _,
    he _]
  constructor
  · rintro ⟨_, u, hu, body, v, ⟨⟨bn, bp⟩, hv⟩, _, w, hw, test, _, ⟨⟨tn, tp⟩, hx, hstop⟩, rfl, rfl⟩
    refine ⟨body, test, rfl, ?_⟩
    rw [Statement.need, Statement.Proper, Statement.writing, Statement.Stops]
    exact ⟨⟨by omega, bp, tp⟩, ⟨u, hu, spans_append.2 ⟨v, hv, w, hw, hx⟩⟩, hstop⟩
  · rintro ⟨body, test, rfl, ⟨hneed, hproper⟩, h, hstop⟩
    rw [Statement.need] at hneed
    rw [Statement.Proper] at hproper
    rw [Statement.writing] at h
    rw [Statement.Stops] at hstop
    obtain ⟨u, hu, h⟩ := h
    obtain ⟨v, hv, w, hw, h⟩ := spans_append.1 h
    exact ⟨(), u, hu, body, v, ⟨⟨by omega, hproper.1⟩, hv⟩, (), w, hw, test, t,
      ⟨⟨by omega, hproper.2⟩, h, hstop⟩, rfl, rfl⟩

/-! ## Choices -/

/-- One more test and block, from the test on. -/
def elseIf (expression : Reading Expression) (block : Reading Block) : Reading ElseIf := do
  let test ← expression
  expect .thenWord
  pure (.mk test (← block))

theorem elseIf_eq_ok (he : ReadsExpression n 0 expression) (hb : ReadsBlock n block)
    (o : ElseIf) (s t : TokenStream) :
    elseIf expression block s = .ok o t ↔
      (o.need ≤ n ∧ o.Proper) ∧ Spans o.writing s t ∧ True := by
  obtain ⟨test, body⟩ := o
  simp only [elseIf, bind_eq_ok, pure_eq_ok, expect_eq_ok (y := .thenWord) (by decide), hb _,
    ElseIf.need, ElseIf.Proper, ElseIf.writing, ElseIf.mk.injEq, and_true]
  constructor
  · rintro ⟨test', u, hu, _, v, hv, body', w, ⟨⟨bn, bp⟩, hw⟩, ⟨rfl, rfl⟩, rfl⟩
    obtain ⟨⟨tn, tp⟩, hu, -⟩ := (he _ _ _).1 hu
    exact ⟨⟨by omega, tp, bp⟩, spans_append.2 ⟨u, hu, v, hv, hw⟩⟩
  · rintro ⟨⟨hneed, tp, bp⟩, h⟩
    obtain ⟨u, hu, v, hv, h⟩ := spans_append.1 h
    exact ⟨test, u, he.of_closes (by omega) tp hu hv.1 (by decide), (), v, hv, body, t,
      ⟨⟨by omega, bp⟩, h⟩, ⟨rfl, rfl⟩, rfl⟩

/-- The further tests of a choice are read one more at a time. -/
theorem elseIfs_eq (expression : Reading Expression) (block : Reading Block) :
    elseIfs expression block = (do
      let others ← loop (oneMore .elseifWord (elseIf expression block)) []
      pure others.reverse) := by
  refine congrArg (fun step => loop step [] >>= fun others => pure others.reverse) ?_
  funext others
  simp only [oneMore, elseIf, monadLift_self, bind_assoc, pure_bind]

theorem elseIfs_eq_ok (he : ReadsExpression n 0 expression) (hb : ReadsBlock n block)
    {others : List ElseIf} :
    elseIfs expression block s = .ok others t ↔
      (ElseIf.needAll others ≤ n ∧ ElseIf.ProperAll others) ∧
        Spans (ElseIf.writingAll others) s t ∧ t.symbol ≠ .elseifWord := by
  have hitem := elseIf_eq_ok he hb
  rw [elseIfs_eq, ElseIf.needAll_le, ElseIf.properAll_iff, ElseIf.writingAll_eq, ← forall₂_and]
  simp only [bind_eq_ok, pure_eq_ok,
    loop_oneMore_eq_ok (show Symbol.elseifWord ≠ .endOfFile by decide) hitem
      (fun h => h.2.1.size_le),
    run_iff (q := fun (_ : ElseIf) (_ : Symbol) => True) (fun _ => trivial)]
  constructor
  · rintro ⟨_, u, ⟨more, rfl, ⟨hall, hspan, -⟩, ht⟩, hr, rfl⟩
    obtain rfl : more = others := by simpa using hr
    exact ⟨hall, hspan, ht⟩
  · rintro ⟨hall, hspan, ht⟩
    exact ⟨others.reverse, t, ⟨others, by simp, ⟨hall, hspan, fun _ _ => trivial⟩, ht⟩,
      by simp, rfl⟩

/-- An item that may be left out is read just if it is written with the mark in front of it, or
nothing is written and there is no mark. -/
theorem optional_eq_ok {α : Type} {mark : Symbol} {item : Reading α} {P : α → Prop}
    {w : α → List Stretch} {Q : α → Symbol → Prop} (hm : mark ≠ .endOfFile)
    (hi : ∀ a s t, item s = .ok a t ↔ P a ∧ Spans (w a) s t ∧ Q a t.symbol) {o : Option α} :
    optionalAfter mark item s = .ok o t ↔
      (∀ a ∈ o, P a) ∧ Spans (o.elim [] fun a => .mark mark :: w a) s t ∧
        (∀ a ∈ o, Q a t.symbol) ∧ (o = none → t.symbol ≠ mark) := by
  rw [optionalAfter_eq_ok hm hi]
  constructor
  · rintro (⟨a, u, rfl, hmark, ha, hw, hq⟩ | ⟨rfl, hs, rfl⟩)
    · exact ⟨by simpa using ha, ⟨u, hmark, hw⟩, by simpa using hq, nofun⟩
    · exact ⟨nofun, rfl, nofun, fun _ => hs⟩
  · rintro ⟨ha, hspan, hq, hmark⟩
    cases o with
    | none =>
      cases hspan
      exact .inr ⟨rfl, hmark rfl, rfl⟩
    | some a =>
      obtain ⟨u, hu, hspan⟩ := hspan
      exact .inl ⟨a, u, rfl, hu, ha a rfl, hspan, hq a rfl⟩

/-- Such an item starts with the mark, or nothing is there. -/
theorem symbol_of_spans_optional {α : Type} {mark : Symbol} {w : α → List Stretch} {o : Option α}
    (h : Spans (o.elim [] fun a => .mark mark :: w a) s t) :
    s.symbol = mark ∨ s = t := by
  cases o with
  | none => exact .inr h
  | some a =>
    obtain ⟨u, hu, -⟩ := h
    exact .inl hu.1

theorem Statement.choice_fits {test : Expression} {body : Block} {others : List ElseIf}
    {otherwise : Option Block} :
    ((Statement.choice test body others otherwise).need ≤ n ∧
        (Statement.choice test body others otherwise).Proper) ↔
      (test.need ≤ n ∧ test.Proper 0) ∧ (body.need ≤ n ∧ body.Proper) ∧
        (ElseIf.needAll others ≤ n ∧ ElseIf.ProperAll others) ∧
        ∀ last ∈ otherwise, last.need ≤ n ∧ last.Proper := by
  cases otherwise <;>
    simp only [Statement.need, Statement.Proper, Option.mem_def, Option.some.injEq,
      forall_eq', reduceCtorEq, false_implies, implies_true, max_le_iff, Nat.zero_le] <;>
    tauto

theorem Statement.choice_writing (test : Expression) (body : Block) (others : List ElseIf)
    (otherwise : Option Block) :
    (Statement.choice test body others otherwise).writing =
      .mark .ifWord :: (test.writing ++ .mark .thenWord :: (body.writing ++
        (ElseIf.writingAll others ++
          ((otherwise.elim [] fun last => .mark .elseWord :: last.writing) ++
            [.mark .endWord])))) := by
  cases otherwise <;> rw [Statement.writing] <;> rfl

/-- The ending of a choice is an optional block. -/
theorem ifStatement_eq (expression : Reading Expression) (block : Reading Block) :
    ifStatement expression block = (do
      expect .ifWord
      let test ← expression
      expect .thenWord
      let body ← block
      let others ← elseIfs expression block
      let otherwise ← optionalAfter .elseWord block
      expect .endWord
      pure (.choice test body others otherwise)) := by
  simp only [optionalAfter_bind]
  rfl

theorem ifStatement_eq_ok (he : ReadsExpression n 0 expression) (hb : ReadsBlock n block) :
    ifStatement expression block s = .ok st t ↔
      ∃ test body others otherwise, st = .choice test body others otherwise ∧
        (st.need ≤ n ∧ st.Proper) ∧ Spans st.writing s t := by
  have hlast : ∀ {o s t}, optionalAfter .elseWord block s = .ok o t ↔ _ :=
    optional_eq_ok (P := fun b : Block => b.need ≤ n ∧ b.Proper) (w := Block.writing)
      (Q := fun _ _ => True) (by decide) fun b s t => by rw [and_true, hb b s t]
  rw [ifStatement_eq]
  simp only [bind_eq_ok, pure_eq_ok, expect_eq_ok (y := .ifWord) (by decide),
    expect_eq_ok (y := .thenWord) (by decide), expect_eq_ok (y := .endWord) (by decide), hb _,
    elseIfs_eq_ok he hb, hlast]
  constructor
  · rintro ⟨_, u, hu, test, v, hv, _, w, hw, body, x, ⟨hbody, hx⟩, others, y,
      ⟨hothers, hy, -⟩, otherwise, z, ⟨hotherwise, hz, -⟩, _, _, hend, rfl, rfl⟩
    obtain ⟨htest, hv, -⟩ := (he _ _ _).1 hv
    refine ⟨test, body, others, otherwise, rfl,
      Statement.choice_fits.2 ⟨htest, hbody, hothers, hotherwise⟩, ?_⟩
    simp only [Statement.choice_writing, spans_cons, spans_append]
    exact ⟨u, hu, v, hv, w, hw, x, hx, y, hy, z, hz, _, hend, rfl⟩
  · rintro ⟨test, body, others, otherwise, rfl, hfits, h⟩
    obtain ⟨⟨tn, tp⟩, hbody, hothers, hotherwise⟩ := Statement.choice_fits.1 hfits
    simp only [Statement.choice_writing, spans_cons, spans_append, spans_nil] at h
    obtain ⟨u, hu, v, hv, w, hw, x, hx, y, hy, z, hz, _, hend, rfl⟩ := h
    have hzend : z.symbol = .endWord := hend.1
    have hy' : y.symbol ≠ .elseifWord := by
      obtain hyz | rfl := symbol_of_spans_optional hz
      · simp [hyz]
      · simp [hzend]
    exact ⟨(), u, hu, test, v, he.of_closes tn tp hv hw.1 (by decide), (), w, hw, body, x,
      ⟨hbody, hx⟩, others, y, ⟨hothers, hy, hy'⟩, otherwise, z,
      ⟨hotherwise, hz, fun _ _ => trivial, fun _ => by simp [hzend]⟩, (), _, hend, rfl, rfl⟩

/-! ## Loops over numbers and iterators -/

/-- A loop over an iterator, from its names to its end. -/
theorem genericFor_eq_ok (he : ReadsExpression n 0 expression) (hb : ReadsBlock n block) :
    (do
      let st ← genericFor expression block
      expect .endWord
      pure st : Reading Statement) s = .ok st t ↔
      ∃ names values body, st = .genericFor names values body ∧ (st.need ≤ n ∧ st.Proper) ∧
        Spans st.writing.tail s t := by
  simp only [genericFor, monadLift_self, expressions, bind_eq_ok, pure_eq_ok, names_eq_ok,
    expect_eq_ok (y := .inWord) (by decide), expect_eq_ok (y := .doWord) (by decide),
    expect_eq_ok (y := .endWord) (by decide), expressions_eq_ok he, hb _]
  constructor
  · rintro ⟨_, _, ⟨names, u, ⟨hne, hu, -⟩, _, v, hv, values, w, ⟨hvs, ⟨vn, vp⟩, hw, -⟩, _, x, hx,
      body, y, ⟨⟨bn, bp⟩, hy⟩, rfl, rfl⟩, _, z, hz, rfl, rfl⟩
    refine ⟨names, values, body, rfl, ?_⟩
    rw [Statement.need, Statement.Proper, Statement.writing, List.tail_cons]
    simp only [spans_append, spans_cons]
    exact ⟨⟨by omega, hne, hvs, vp, bp⟩, u, hu, v, hv, w, hw, x, hx, y, hy, z, hz, rfl⟩
  · rintro ⟨names, values, body, rfl, ⟨hneed, hproper⟩, h⟩
    rw [Statement.need] at hneed
    rw [Statement.Proper] at hproper
    rw [Statement.writing, List.tail_cons] at h
    simp only [spans_append, spans_cons, spans_nil] at h
    obtain ⟨hne, hvs, vp, bp⟩ := hproper
    obtain ⟨u, hu, v, hv, w, hw, x, hx, y, hy, _, hz, rfl⟩ := h
    have hin : u.symbol = .inWord := hv.1
    have hdo : w.symbol = .doWord := hx.1
    have hc : Symbol.doWord.Closes := by decide
    exact ⟨_, y, ⟨names, u, ⟨hne, hu, by simp [hin]⟩, (), v, hv, values, w,
      ⟨hvs, ⟨by omega, vp⟩, hw, hdo ▸ hc.rowStops (by decide) values⟩, (), x, hx, body, y,
      ⟨⟨by omega, bp⟩, hy⟩, rfl, rfl⟩, (), _, hz, rfl, rfl⟩

theorem Statement.numericFor_fits {name : String} {start limit : Expression}
    {step : Option Expression} {body : Block} :
    ((Statement.numericFor name start limit step body).need ≤ n ∧
        (Statement.numericFor name start limit step body).Proper) ↔
      (start.need ≤ n ∧ start.Proper 0) ∧ (limit.need ≤ n ∧ limit.Proper 0) ∧
        (∀ e ∈ step, e.need ≤ n ∧ e.Proper 0) ∧ (body.need ≤ n ∧ body.Proper) := by
  cases step <;>
    simp only [Statement.need, Statement.Proper, Option.mem_def, Option.some.injEq,
      forall_eq', reduceCtorEq, false_implies, implies_true, max_le_iff, Nat.zero_le] <;>
    tauto

theorem Statement.numericFor_writing (name : String) (start limit : Expression)
    (step : Option Expression) (body : Block) :
    (Statement.numericFor name start limit step body).writing =
      .mark .forWord :: .name name :: .mark .equal :: (start.writing ++ .mark .comma ::
        (limit.writing ++ ((step.elim [] fun e => .mark .comma :: e.writing) ++
          .mark .doWord :: (body.writing ++ [.mark .endWord])))) := by
  cases step <;> rw [Statement.writing] <;> rfl

/-- The step of a loop over numbers is an optional expression. -/
theorem numericFor_eq (expression : Reading Expression) (block : Reading Block) :
    numericFor expression block = (do
      let name ← expectLexeme .name
      expect .equal
      let start ← expression
      expect .comma
      let limit ← expression
      let step ← optionalAfter .comma expression
      expect .doWord
      pure (.numericFor name start limit step (← block))) := by
  simp only [optionalAfter_bind]
  rfl

/-- A loop over numbers, from its name to its end. -/
theorem numericFor_eq_ok (he : ReadsExpression n 0 expression) (hb : ReadsBlock n block) :
    (do
      let st ← numericFor expression block
      expect .endWord
      pure st : Reading Statement) s = .ok st t ↔
      ∃ name start limit step body, st = .numericFor name start limit step body ∧
        (st.need ≤ n ∧ st.Proper) ∧ Spans st.writing.tail s t := by
  have hmore : ∀ {o s t}, optionalAfter .comma expression s = .ok o t ↔ _ :=
    optional_eq_ok (P := fun e : Expression => e.need ≤ n ∧ e.Proper 0) (w := Expression.writing)
      (Q := fun e y => e.Stops y ∧ y.Below 0) (by decide) he
  rw [numericFor_eq]
  simp only [bind_eq_ok, pure_eq_ok, expectName_eq_ok, expect_eq_ok (y := .equal) (by decide),
    expect_eq_ok (y := .comma) (by decide), expect_eq_ok (y := .doWord) (by decide),
    expect_eq_ok (y := .endWord) (by decide), hb _, hmore]
  constructor
  · rintro ⟨_, _, ⟨name, u, ⟨-, ⟨_, hname, rfl⟩, -⟩, _, v, hv, start, w, hw, _, x, hx, limit, y,
      hy, step, z, ⟨hstep, hz, -⟩, _, a, ha, body, b, ⟨hbody, hb⟩, rfl, rfl⟩, _, c, hc, rfl, rfl⟩
    obtain ⟨hstart, hw, -⟩ := (he _ _ _).1 hw
    obtain ⟨hlimit, hy, -⟩ := (he _ _ _).1 hy
    refine ⟨name, start, limit, step, body, rfl,
      Statement.numericFor_fits.2 ⟨hstart, hlimit, hstep, hbody⟩, ?_⟩
    simp only [Statement.numericFor_writing, List.tail_cons, spans_append, spans_cons]
    exact ⟨_, hname, v, hv, w, hw, x, hx, y, hy, z, hz, a, ha, b, hb, c, hc, rfl⟩
  · rintro ⟨name, start, limit, step, body, rfl, hfits, h⟩
    obtain ⟨⟨sn, sp⟩, ⟨ln, lp⟩, hstep, hbody⟩ := Statement.numericFor_fits.1 hfits
    simp only [Statement.numericFor_writing, List.tail_cons, spans_cons, spans_append,
      spans_nil] at h
    obtain ⟨u, hname, v, hv, w, hw, x, hx, y, hy, z, hz, a, ha, b, hb, c, hend, rfl⟩ := h
    have hdo : z.symbol = .doWord := ha.1
    have hdoc : z.symbol.Closes := by rw [hdo]; decide
    -- The limit ends at the comma of the step, or at the word after it.
    have hyc : y.symbol.Closes := by
      obtain hyz | rfl := symbol_of_spans_optional hz
      · rw [hyz]
        decide
      · exact hdoc
    exact ⟨_, b, ⟨name, u, ⟨trivial, ⟨u, hname, rfl⟩, trivial⟩, (), v, hv, start, w,
      he.of_closes sn sp hw hx.1 (by decide), (), x, hx, limit, y,
      he.of_closes ln lp hy rfl hyc, step, z,
      ⟨hstep, hz, fun e _ => ⟨hdoc.stops e, hdoc.below 0⟩, fun _ => by simp [hdo]⟩, (), a, ha,
      body, b, ⟨hbody, hb⟩, rfl, rfl⟩, (), c, hend, rfl, rfl⟩

/-- The loop that the symbol after the first name tells, from its names to its end. -/
def forLoop (expression : Reading Expression) (block : Reading Block) :
    Symbol → Reading Statement
  | .comma | .inWord => do
    let st ← genericFor expression block
    expect .endWord
    pure st
  | _ => do
    let st ← numericFor expression block
    expect .endWord
    pure st

theorem forLoop_eq (expression : Reading Expression) (block : Reading Block) (y : Symbol) :
    (forLoop expression block y = do
      let st ← genericFor expression block
      expect .endWord
      pure st) ∨
    (forLoop expression block y = do
      let st ← numericFor expression block
      expect .endWord
      pure st) := by
  cases y <;> first | exact .inl rfl | exact .inr rfl

theorem forStatement_eq (hs : s.symbol = .forWord) {u : TokenStream} (hu : s.Next u) :
    forStatement expression block s = forLoop expression block u.nextSymbol u := by
  simp only [forStatement, monadLift_self]
  rw [bind_of_ok (expect_of_next hs hu), bind_of_ok peek_eq]
  cases u.nextSymbol <;> rfl

/-- After the first of some names there is a comma, or what follows them all. -/
theorem nextSymbol_of_spans_nameRow {names : List String} (hne : names ≠ []) {mark : Symbol}
    (h : Spans (nameRow mark names) s t) (ht : t.symbol = .inWord) :
    s.nextSymbol = mark ∨ s.nextSymbol = .inWord := by
  obtain ⟨name, rest, rfl⟩ := List.exists_cons_of_ne_nil hne
  obtain ⟨u, ⟨-, hu⟩, h⟩ := h
  rw [hu.nextSymbol]
  cases rest with
  | nil =>
    cases h
    exact .inr ht
  | cons next rest =>
    obtain ⟨v, ⟨hmark, -⟩, -⟩ := h
    exact .inl hmark

theorem forStatement_eq_ok (he : ReadsExpression n 0 expression) (hb : ReadsBlock n block) :
    forStatement expression block s = .ok st t ↔
      ((∃ names values body, st = .genericFor names values body) ∨
        ∃ name start limit step body, st = .numericFor name start limit step body) ∧
      (st.need ≤ n ∧ st.Proper) ∧ Spans st.writing s t := by
  have hgeneric : ∀ names values body, (Statement.genericFor names values body).writing =
      .mark .forWord :: (Statement.genericFor names values body).writing.tail := by
    intro names values body
    rw [Statement.writing, List.tail_cons]
  have hnumeric : ∀ name start limit step body,
      (Statement.numericFor name start limit step body).writing =
        .mark .forWord :: (Statement.numericFor name start limit step body).writing.tail := by
    intro name start limit step body
    cases step <;> rw [Statement.writing, List.tail_cons]
  constructor
  · intro h
    obtain ⟨_, u, hu, -⟩ := bind_eq_ok.1 h
    have hu := (expect_eq_ok (by decide)).1 hu
    rw [forStatement_eq hu.1 hu.2] at h
    obtain hloop | hloop := forLoop_eq expression block u.nextSymbol <;> rw [hloop] at h
    · obtain ⟨names, values, body, rfl, hfits, h⟩ := (genericFor_eq_ok he hb).1 h
      exact ⟨.inl ⟨_, _, _, rfl⟩, hfits, hgeneric _ _ _ ▸ ⟨u, hu, h⟩⟩
    · obtain ⟨name, start, limit, step, body, rfl, hfits, h⟩ := (numericFor_eq_ok he hb).1 h
      exact ⟨.inr ⟨_, _, _, _, _, rfl⟩, hfits, hnumeric _ _ _ _ _ ▸ ⟨u, hu, h⟩⟩
  · rintro ⟨⟨names, values, body, rfl⟩ | ⟨name, start, limit, step, body, rfl⟩, hfits, h⟩
    · rw [hgeneric] at h
      obtain ⟨u, hu, h⟩ := h
      have hnext : u.nextSymbol = .comma ∨ u.nextSymbol = .inWord := by
        have hne := hfits.2
        rw [Statement.Proper] at hne
        rw [Statement.writing, List.tail_cons] at h
        obtain ⟨v, hnames, w, hw, -⟩ := spans_append.1 h
        exact nextSymbol_of_spans_nameRow hne.1 hnames hw.1
      have hread := (genericFor_eq_ok he hb).2 ⟨names, values, body, rfl, hfits, h⟩
      rw [forStatement_eq hu.1 hu.2]
      obtain hnext | hnext := hnext <;> rw [hnext] <;> exact hread
    · rw [hnumeric] at h
      obtain ⟨u, hu, h⟩ := h
      have hnext : u.nextSymbol = .equal := by
        cases step <;> rw [Statement.writing, List.tail_cons] at h <;>
          obtain ⟨v, hv, w, hw, -⟩ := h <;> rw [hv.2.nextSymbol] <;> exact hw.1
      have hread := (numericFor_eq_ok he hb).2 ⟨name, start, limit, step, body, rfl, hfits, h⟩
      rw [forStatement_eq hu.1 hu.2, hnext]
      exact hread

/-! ## Functions and local names -/

theorem symbol_of_spans_functionBody {body : FunctionBody} (h : Spans body.writing s t) :
    s.symbol = .leftParen := by
  obtain ⟨parameters, varargs, body⟩ := body
  rw [FunctionBody.writing] at h
  obtain ⟨u, hu, -⟩ := h
  exact hu.1

theorem functionStatement_eq_ok (hb : ReadsBlock n block) :
    functionStatement block s = .ok st t ↔ ∃ name body, st = .function name body ∧
      (st.need ≤ n ∧ st.Proper) ∧ Spans st.writing s t := by
  simp only [functionStatement, monadLift_self, bind_eq_ok, pure_eq_ok,
    expect_eq_ok (y := .functionWord) (by decide), functionBody_eq_ok hb]
  constructor
  · rintro ⟨_, u, hu, name, v, hv, body, w, ⟨⟨bn, bp⟩, hw⟩, rfl, rfl⟩
    obtain ⟨hne, hv⟩ := (functionName_eq_ok (symbol_of_spans_functionBody hw)).1 hv
    refine ⟨name, body, rfl, ?_⟩
    rw [Statement.need, Statement.Proper, Statement.writing]
    exact ⟨⟨bn, hne, bp⟩, u, hu, spans_append.2 ⟨v, hv, hw⟩⟩
  · rintro ⟨name, body, rfl, ⟨hneed, hproper⟩, h⟩
    rw [Statement.need] at hneed
    rw [Statement.Proper] at hproper
    rw [Statement.writing] at h
    obtain ⟨u, hu, h⟩ := h
    obtain ⟨v, hv, hw⟩ := spans_append.1 h
    exact ⟨(), u, hu, name, v,
      (functionName_eq_ok (symbol_of_spans_functionBody hw)).2 ⟨hproper.1, hv⟩, body, t,
      ⟨⟨hneed, hproper.2⟩, hw⟩, rfl, rfl⟩

theorem localStatement_sound (he : ReadsExpression n 0 expression) (hb : ReadsBlock n block)
    (h : localStatement expression block s = .ok st t) :
    (st.need ≤ n ∧ st.Proper) ∧ Spans st.writing s t ∧ st.Stops t.symbol := by
  simp only [localStatement, monadLift_self] at h
  obtain ⟨_, u, hu, h⟩ := bind_eq_ok.1 h
  have hu := (expect_eq_ok (by decide)).1 hu
  rw [bind_of_ok symbol_eq] at h
  cases hs : u.symbol
  case functionWord =>
    rw [hs] at h
    obtain ⟨_, v, hv, h⟩ := bind_eq_ok.1 h
    obtain ⟨name, w, hw, h⟩ := bind_eq_ok.1 h
    obtain ⟨body, x, hx, hr⟩ := bind_eq_ok.1 h
    obtain ⟨rfl, rfl⟩ := pure_eq_ok.1 hr
    have hv := (consume_eq_ok (by simp [hs])).1 hv
    obtain ⟨-, ⟨_, hname, rfl⟩, -⟩ := expectName_eq_ok.1 hw
    obtain ⟨hfits, hspan⟩ := (functionBody_eq_ok hb).1 hx
    simp only [Statement.need, Statement.Proper, Statement.writing, Statement.Stops]
    exact ⟨hfits, ⟨u, hu, v, ⟨hs, hv⟩, _, hname, hspan⟩, trivial⟩
  case name =>
    rw [hs] at h
    obtain ⟨names, v, hv, h⟩ := bind_eq_ok.1 h
    obtain ⟨hne, hv, hcomma⟩ := names_eq_ok.1 hv
    obtain ⟨b, w, hw, h⟩ := bind_eq_ok.1 h
    obtain ⟨rfl, hequal, hw⟩ | ⟨rfl, hequal, rfl⟩ := (tryConsume_eq_ok (by decide)).1 hw
    · rw [if_pos rfl] at h
      obtain ⟨values, x, hx, hr⟩ := bind_eq_ok.1 h
      obtain ⟨rfl, rfl⟩ := pure_eq_ok.1 hr
      obtain ⟨hvs, ⟨vn, vp⟩, hx, hstop⟩ := (expressions_eq_ok he).1 hx
      rw [Statement.need, Statement.Proper, Statement.writing, Statement.Stops]
      exact ⟨⟨vn, hne, hvs, vp⟩, ⟨u, hu, spans_append.2 ⟨v, hv, w, ⟨hequal, hw⟩, hx⟩⟩, hstop⟩
    · obtain ⟨rfl, rfl⟩ := pure_eq_ok.1 h
      rw [Statement.need, Statement.Proper, Statement.writing, Statement.Stops]
      exact ⟨⟨Nat.zero_le n, hne⟩, ⟨u, hu, hv⟩, hcomma, hequal⟩
  all_goals
    rw [hs] at h
    exact absurd h unexpected_ne_ok

/-- The statements that declare local names. -/
def IsLocal : Statement → Prop
  | .localFunction .. | .localNames _ | .localAssign .. => True
  | _ => False

theorem symbol_of_spans_nameRow {names : List String} (hne : names ≠ []) {mark : Symbol}
    (h : Spans (nameRow mark names) s t) : s.symbol = .name := by
  obtain ⟨name, rest, rfl⟩ := List.exists_cons_of_ne_nil hne
  obtain ⟨u, ⟨⟨hs, -⟩, -⟩, -⟩ := h
  exact hs

theorem localStatement_complete (he : ReadsExpression n 0 expression) (hb : ReadsBlock n block)
    (hlocal : IsLocal st) (hneed : st.need ≤ n) (hproper : st.Proper) (h : Spans st.writing s t)
    (hstop : st.Stops t.symbol) : localStatement expression block s = .ok st t := by
  match st, hlocal with
  | .localFunction name body, _ =>
    rw [Statement.need] at hneed
    rw [Statement.Proper] at hproper
    rw [Statement.writing] at h
    obtain ⟨u, hu, v, ⟨hs, hv⟩, w, hname, h⟩ := h
    have hs : u.symbol = .functionWord := hs
    have hbody := (functionBody_eq_ok hb).2 ⟨⟨hneed, hproper⟩, h⟩
    simp only [localStatement, monadLift_self]
    rw [bind_of_ok (expect_of_next hu.1 hu.2), bind_of_ok symbol_eq, hs]
    exact bind_eq_ok.2 ⟨(), v, hv.2, bind_eq_ok.2 ⟨name, w,
      expectName_eq_ok.2 ⟨trivial, ⟨w, hname, rfl⟩, trivial⟩,
      bind_eq_ok.2 ⟨body, t, hbody, rfl⟩⟩⟩
  | .localNames names, _ =>
    rw [Statement.Proper] at hproper
    rw [Statement.writing] at h
    rw [Statement.Stops] at hstop
    obtain ⟨u, hu, h⟩ := h
    simp only [localStatement, monadLift_self]
    rw [bind_of_ok (expect_of_next hu.1 hu.2), bind_of_ok symbol_eq,
      symbol_of_spans_nameRow hproper h]
    refine bind_eq_ok.2 ⟨names, t, names_eq_ok.2 ⟨hproper, h, hstop.1⟩, ?_⟩
    exact bind_eq_ok.2 ⟨false, t, tryConsume_of_ne hstop.2, rfl⟩
  | .localAssign names values, _ =>
    rw [Statement.need] at hneed
    rw [Statement.Proper] at hproper
    rw [Statement.writing] at h
    rw [Statement.Stops] at hstop
    obtain ⟨hne, hvs, vp⟩ := hproper
    obtain ⟨u, hu, h⟩ := h
    obtain ⟨v, hv, w, ⟨hequal, hw⟩, h⟩ := spans_append.1 h
    have hequal : v.symbol = .equal := hequal
    have hvalues := (expressions_eq_ok he).2 ⟨hvs, ⟨hneed, vp⟩, h, hstop⟩
    simp only [localStatement, monadLift_self]
    rw [bind_of_ok (expect_of_next hu.1 hu.2), bind_of_ok symbol_eq,
      symbol_of_spans_nameRow hne hv]
    refine bind_eq_ok.2 ⟨names, v, names_eq_ok.2 ⟨hne, hv, by simp [hequal]⟩, ?_⟩
    refine bind_eq_ok.2 ⟨true, w, tryConsume_of_next hequal hw, ?_⟩
    exact bind_eq_ok.2 ⟨values, t, hvalues, rfl⟩

/-! ## Assignments and calls -/

theorem PrefixExpression.toVariable?_eq_some {p : PrefixExpression} {v : Variable}
    (h : p.toVariable? = some v) : p = .var v := by
  unfold PrefixExpression.toVariable? at h
  split at h <;> cases h
  rfl

theorem PrefixExpression.toCall?_eq_some {p : PrefixExpression} {c : Call}
    (h : p.toCall? = some c) : p = .call c := by
  unfold PrefixExpression.toCall? at h
  split at h <;> cases h
  rfl

theorem variableOf_eq_ok (he : ReadsExpression n 0 expression) (target : Variable)
    (s t : TokenStream) :
    variableOf expression s = .ok target t ↔
      (target.need ≤ n ∧ target.Proper) ∧ Spans target.writing s t ∧
        t.symbol.startsSuffix = false := by
  have hvar : (prefixExpression expression s = .ok (.var target) t) ↔ _ :=
    prefixExpression_eq_ok he
  rw [PrefixExpression.need, PrefixExpression.Proper, PrefixExpression.writing] at hvar
  rw [← hvar]
  constructor
  · intro h
    obtain ⟨p, u, hp, h⟩ := bind_eq_ok.1 h
    cases hv : p.toVariable? with
    | none =>
      rw [hv] at h
      exact absurd h unexpected_ne_ok
    | some v =>
      rw [hv] at h
      obtain ⟨rfl, rfl⟩ := pure_eq_ok.1 h
      rw [← PrefixExpression.toVariable?_eq_some hv]
      exact hp
  · intro h
    exact bind_eq_ok.2 ⟨_, t, h, rfl⟩

theorem moreTargets_eq_ok (he : ReadsExpression n 0 expression) {first : Variable}
    {targets : List Variable} :
    moreTargets expression first s = .ok targets t ↔
      ∃ more, targets = first :: more ∧ (∀ v ∈ more, v.need ≤ n ∧ v.Proper) ∧
        Spans (more.flatMap fun v => .mark .comma :: v.writing) s t ∧
        (∀ v ∈ more.getLast?, t.symbol.startsSuffix = false) ∧ t.symbol ≠ .comma := by
  change (loop (oneMore .comma (variableOf expression)) [first] >>= fun targets =>
    pure targets.reverse) s = _ ↔ _
  simp only [bind_eq_ok, pure_eq_ok,
    loop_oneMore_eq_ok (show Symbol.comma ≠ .endOfFile by decide) (variableOf_eq_ok he)
      (fun h => h.2.1.size_le),
    run_iff (q := fun (_ : Variable) (y : Symbol) => y.startsSuffix = false)
      (fun _ => (rfl : Symbol.comma.startsSuffix = false))]
  constructor
  · rintro ⟨_, u, ⟨more, rfl, ⟨hall, hspan, hlast⟩, ht⟩, hr, rfl⟩
    exact ⟨more, by simpa using hr.symm, hall, hspan, hlast, ht⟩
  · rintro ⟨more, rfl, hall, hspan, hlast, ht⟩
    exact ⟨_, t, ⟨more, rfl, ⟨hall, hspan, hlast⟩, ht⟩, by simp, rfl⟩

theorem Variable.writings_cons (first : Variable) (more : List Variable) :
    row (.mark .comma) (Variable.writings (first :: more)) =
      first.writing ++ more.flatMap fun v => .mark .comma :: v.writing := by
  simp [Variable.writings_eq_map, row, List.flatMap_map]

/-- The assignment whose first target has been read. -/
def assignFrom (expression : Reading Expression) (start : PrefixExpression) :
    Reading Statement :=
  match start.toVariable? with
  | some target => do
    let targets ← moreTargets expression target
    expect .equal
    pure (.assign targets (← expressions expression))
  | none => unexpected

/-- The call that has been read. -/
def callFrom (start : PrefixExpression) : Reading Statement :=
  match start.toCall? with
  | some call => pure (.call call)
  | none => unexpected

/-- A comma or an equals sign asks for a variable, which an assignment starts with. -/
theorem assignFrom_sound (he : ReadsExpression n 0 expression) {start : PrefixExpression}
    {u : TokenStream} (hfits : start.need ≤ n ∧ start.Proper) (hspan : Spans start.writing s u)
    (h : assignFrom expression start u = .ok st t) :
    (st.need ≤ n ∧ st.Proper) ∧ Spans st.writing s t ∧ st.Stops t.symbol := by
  cases hv : start.toVariable? with
  | none =>
    rw [assignFrom, hv] at h
    exact absurd h unexpected_ne_ok
  | some first =>
    rw [assignFrom, hv] at h
    obtain rfl := PrefixExpression.toVariable?_eq_some hv
    rw [PrefixExpression.need, PrefixExpression.Proper] at hfits
    rw [PrefixExpression.writing] at hspan
    obtain ⟨sn, sp⟩ := hfits
    obtain ⟨targets, v, hv, h⟩ := bind_eq_ok.1 h
    obtain ⟨_, w, hw, h⟩ := bind_eq_ok.1 h
    obtain ⟨values, x, hx, hr⟩ := bind_eq_ok.1 h
    obtain ⟨rfl, rfl⟩ := pure_eq_ok.1 hr
    obtain ⟨more, rfl, hall, hmore, -⟩ := (moreTargets_eq_ok he).1 hv
    have hw := (expect_eq_ok (by decide)).1 hw
    obtain ⟨hvs, ⟨vn, vp⟩, hx, hstop⟩ := (expressions_eq_ok he).1 hx
    have mn : Variable.needAll more ≤ n := Variable.needAll_le.2 fun v hv => (hall v hv).1
    have mp : Variable.ProperAll more := Variable.properAll_iff.2 fun v hv => (hall v hv).2
    rw [Statement.need, Statement.Proper, Statement.writing, Statement.Stops,
      Variable.writings_cons, Variable.needAll, Variable.ProperAll]
    exact ⟨⟨by omega, by simp, ⟨sp, mp⟩, hvs, vp⟩,
      spans_append.2 ⟨v, spans_append.2 ⟨u, hspan, hmore⟩, w, hw, hx⟩, hstop⟩

/-- Any other symbol asks for a call, which is the whole statement. -/
theorem callFrom_sound {start : PrefixExpression} {u : TokenStream}
    (hfits : start.need ≤ n ∧ start.Proper) (hspan : Spans start.writing s u)
    (hsuffix : u.symbol.startsSuffix = false) (hcomma : u.symbol ≠ .comma)
    (hequal : u.symbol ≠ .equal) (h : callFrom start u = .ok st t) :
    (st.need ≤ n ∧ st.Proper) ∧ Spans st.writing s t ∧ st.Stops t.symbol := by
  cases hc : start.toCall? with
  | none =>
    rw [callFrom, hc] at h
    exact absurd h unexpected_ne_ok
  | some c =>
    rw [callFrom, hc] at h
    obtain rfl := PrefixExpression.toCall?_eq_some hc
    obtain ⟨rfl, rfl⟩ := pure_eq_ok.1 h
    rw [PrefixExpression.need, PrefixExpression.Proper] at hfits
    rw [PrefixExpression.writing] at hspan
    rw [Statement.need, Statement.Proper, Statement.writing, Statement.Stops]
    exact ⟨hfits, hspan, hsuffix, hcomma, hequal⟩

theorem assignOrCall_sound (he : ReadsExpression n 0 expression)
    (h : assignOrCall expression s = .ok st t) :
    (st.need ≤ n ∧ st.Proper) ∧ Spans st.writing s t ∧ st.Stops t.symbol := by
  simp only [assignOrCall, monadLift_self] at h
  obtain ⟨start, u, hstart, h⟩ := bind_eq_ok.1 h
  obtain ⟨hfits, hspan, hsuffix⟩ := (prefixExpression_eq_ok he).1 hstart
  rw [bind_of_ok symbol_eq] at h
  cases hs : u.symbol
  case comma | equal =>
    rw [hs] at h
    exact assignFrom_sound he hfits hspan h
  all_goals
    rw [hs] at h
    exact callFrom_sound hfits hspan hsuffix (by simp [hs]) (by simp [hs]) h

/-- The statements that start with a prefix expression. -/
def IsAssignOrCall : Statement → Prop
  | .assign .. | .call _ => True
  | _ => False

theorem assignOrCall_complete (he : ReadsExpression n 0 expression) (hkind : IsAssignOrCall st)
    (hneed : st.need ≤ n) (hproper : st.Proper) (h : Spans st.writing s t)
    (hstop : st.Stops t.symbol) : assignOrCall expression s = .ok st t := by
  match st, hkind with
  | .assign targets values, _ =>
    rw [Statement.need] at hneed
    rw [Statement.Proper] at hproper
    rw [Statement.writing] at h
    rw [Statement.Stops] at hstop
    obtain ⟨hne, hts, hvs, vp⟩ := hproper
    obtain ⟨first, more, rfl⟩ := List.exists_cons_of_ne_nil hne
    rw [Variable.needAll] at hneed
    rw [Variable.ProperAll] at hts
    rw [Variable.writings_cons] at h
    obtain ⟨v, hrow, w, ⟨hequal, hw⟩, h⟩ := spans_append.1 h
    obtain ⟨u, hfirst, hmore⟩ := spans_append.1 hrow
    have hequal : v.symbol = .equal := hequal
    have hu : u.symbol = .comma ∨ u.symbol = .equal := by
      cases more with
      | nil =>
        cases hmore
        exact .inr hequal
      | cons next more =>
        obtain ⟨x, hx, -⟩ := hmore
        exact .inl hx.1
    have mn : Variable.needAll more ≤ n := by omega
    have hall : ∀ v ∈ more, v.need ≤ n ∧ v.Proper := fun v hv =>
      ⟨Variable.needAll_le.1 mn v hv, Variable.properAll_iff.1 hts.2 v hv⟩
    have hstart : prefixExpression expression s = .ok (.var first) u := by
      rw [prefixExpression_eq_ok he, PrefixExpression.need, PrefixExpression.Proper,
        PrefixExpression.writing]
      exact ⟨⟨by omega, hts.1⟩, hfirst, by obtain hu | hu := hu <;> rw [hu] <;> rfl⟩
    have htargets : moreTargets expression first u = .ok (first :: more) v :=
      (moreTargets_eq_ok he).2 ⟨more, rfl, hall, hmore, fun _ _ => by rw [hequal]; rfl,
        by simp [hequal]⟩
    have hvalues := (expressions_eq_ok he).2 ⟨hvs, ⟨by omega, vp⟩, h, hstop⟩
    simp only [assignOrCall, monadLift_self]
    rw [bind_of_ok hstart, bind_of_ok symbol_eq]
    obtain hu | hu := hu <;> rw [hu] <;>
      exact bind_eq_ok.2 ⟨_, v, htargets, bind_eq_ok.2 ⟨(), w, expect_of_next hequal hw,
        bind_eq_ok.2 ⟨values, t, hvalues, rfl⟩⟩⟩
  | .call c, _ =>
    rw [Statement.need] at hneed
    rw [Statement.Proper] at hproper
    rw [Statement.writing] at h
    rw [Statement.Stops] at hstop
    obtain ⟨hsuffix, hcomma, hequal⟩ := hstop
    have hstart : prefixExpression expression s = .ok (.call c) t := by
      rw [prefixExpression_eq_ok he, PrefixExpression.need, PrefixExpression.Proper,
        PrefixExpression.writing]
      exact ⟨⟨hneed, hproper⟩, h, hsuffix⟩
    simp only [assignOrCall, monadLift_self]
    rw [bind_of_ok hstart, bind_of_ok symbol_eq]
    cases ht : t.symbol
    case comma | equal => simp [ht] at hcomma hequal
    all_goals rfl

/-! ## Endings -/

theorem returnStatement_sound (he : ReadsExpression n 0 expression) {ending : Ending}
    (h : returnStatement expression s = .ok ending t) :
    (ending.need ≤ n ∧ ending.Proper) ∧ Spans ending.writing s t ∧ ending.Stops t.symbol ∧
      ending.isStatement = true := by
  simp only [returnStatement, monadLift_self] at h
  obtain ⟨_, u, hu, h⟩ := bind_eq_ok.1 h
  have hu := (expect_eq_ok (by decide)).1 hu
  have nothing : u.symbol.endsReturn = true →
      (pure (.returns []) : Reading Ending) u = .ok ending t →
      (ending.need ≤ n ∧ ending.Proper) ∧ Spans ending.writing s t ∧ ending.Stops t.symbol ∧
        ending.isStatement = true := by
    intro hends hm
    obtain ⟨rfl, rfl⟩ := pure_eq_ok.1 hm
    rw [Ending.need, Ending.Proper, Ending.writing, Expression.needAll, Expression.ProperAll,
      Expression.writings]
    exact ⟨⟨Nat.zero_le n, trivial⟩, ⟨u, hu, rfl⟩, hends, rfl⟩
  rw [bind_of_ok symbol_eq] at h
  cases hs : u.symbol
  case endWord | elseWord | elseifWord | untilWord | endOfFile | semicolon =>
    rw [hs] at h
    exact nothing (by rw [hs]; rfl) h
  all_goals
    rw [hs] at h
    obtain ⟨values, v, hv, hr⟩ := bind_eq_ok.1 h
    obtain ⟨rfl, rfl⟩ := pure_eq_ok.1 hr
    obtain ⟨hne, hfits, hspan, hstop⟩ := (expressions_eq_ok he).1 hv
    obtain ⟨e, rest, rfl⟩ := List.exists_cons_of_ne_nil hne
    rw [Ending.need, Ending.Proper, Ending.writing]
    exact ⟨hfits, ⟨u, hu, hspan⟩, hstop, rfl⟩

theorem returnStatement_complete (he : ReadsExpression n 0 expression) {values : List Expression}
    (hneed : Expression.needAll values ≤ n) (hproper : Expression.ProperAll values)
    (h : Spans (Ending.returns values).writing s t)
    (hstop : (Ending.returns values).Stops t.symbol) :
    returnStatement expression s = .ok (.returns values) t := by
  rw [Ending.writing] at h
  obtain ⟨u, hu, h⟩ := h
  simp only [returnStatement, monadLift_self]
  rw [bind_of_ok (expect_of_next hu.1 hu.2), bind_of_ok symbol_eq]
  cases values with
  | nil =>
    rw [Expression.writings] at h
    cases h
    have hstop : t.symbol.endsReturn = true := hstop
    cases hs : t.symbol
    case endWord | elseWord | elseifWord | untilWord | endOfFile | semicolon => rfl
    all_goals
      rw [hs] at hstop
      cases hstop
  | cons e rest =>
    have hvalues := (expressions_eq_ok he).2 ⟨by simp, ⟨hneed, hproper⟩, h, hstop⟩
    have hstarts : u.symbol.startsExpression = true := by
      rw [Expression.writings] at h
      obtain ⟨v, hv, -⟩ := spans_append.1 h
      exact e.startsExpression_of_spans hv
    cases hs : u.symbol
    case endWord | elseWord | elseifWord | untilWord | endOfFile | semicolon =>
      rw [hs] at hstarts
      cases hstarts
    all_goals exact bind_eq_ok.2 ⟨_, t, hvalues, rfl⟩

end LuaLang.Grammar
