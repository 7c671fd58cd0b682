import Mathlib
import LuaLang.Proofs.Grammar.Statements

/-!
# What blocks are read from

The first symbol of a statement tells the rule that reads it. A block is read exactly: semicolons as
far as they go, and a statement after them, until an ending or a symbol that starts no statement.
By induction on the levels, all readings that the grammar ties together are exact.

## Main statements

* `readsBlock_blockWith`: blocks, if what they consist of is read exactly.
* `readsOperand_operand`, `readsExpression_place_levels`, `readsBlock_block`: all levels.
* `chunk_eq_ok`: a block up to the end of the file.
-/

namespace LuaLang.Grammar

open Reading TokenStream

variable {n : Nat} {s t : TokenStream}

section Rules

variable {expression : Reading Expression} {block : Reading Block} {st : Statement}

/-! ## The rule for a statement -/

/-- The rule for the statements that start with the symbol. -/
def statementRule (expression : Reading Expression) (block : Reading Block) :
    Symbol → Option (Reading Statement)
  | .doWord => some (doStatement block)
  | .whileWord => some (whileStatement expression block)
  | .repeatWord => some (repeatStatement expression block)
  | .ifWord => some (ifStatement expression block)
  | .forWord => some (forStatement expression block)
  | .functionWord => some (functionStatement block)
  | .localWord => some (localStatement expression block)
  | .name | .leftParen => some (assignOrCall expression)
  | _ => none

theorem statementRule_sound (he : ReadsExpression n 0 expression) (hb : ReadsBlock n block)
    {y : Symbol} {rule : Reading Statement} (hrule : statementRule expression block y = some rule)
    (h : rule s = .ok st t) :
    (st.need ≤ n ∧ st.Proper) ∧ Spans st.writing s t ∧ st.Stops t.symbol := by
  cases y
  case doWord =>
    cases hrule
    obtain ⟨body, rfl, hfits, hspan⟩ := (doStatement_eq_ok hb).1 h
    exact ⟨hfits, hspan, trivial⟩
  case whileWord =>
    cases hrule
    obtain ⟨test, body, rfl, hfits, hspan⟩ := (whileStatement_eq_ok he hb).1 h
    exact ⟨hfits, hspan, trivial⟩
  case repeatWord =>
    cases hrule
    obtain ⟨body, test, rfl, hfits, hspan, hstop⟩ := (repeatStatement_eq_ok he hb).1 h
    exact ⟨hfits, hspan, hstop⟩
  case ifWord =>
    cases hrule
    obtain ⟨test, body, others, otherwise, rfl, hfits, hspan⟩ := (ifStatement_eq_ok he hb).1 h
    exact ⟨hfits, hspan, trivial⟩
  case forWord =>
    cases hrule
    obtain ⟨⟨names, values, body, rfl⟩ | ⟨name, start, limit, step, body, rfl⟩, hfits, hspan⟩ :=
      (forStatement_eq_ok he hb).1 h
    · exact ⟨hfits, hspan, trivial⟩
    · exact ⟨hfits, hspan, trivial⟩
  case functionWord =>
    cases hrule
    obtain ⟨name, body, rfl, hfits, hspan⟩ := (functionStatement_eq_ok hb).1 h
    exact ⟨hfits, hspan, trivial⟩
  case localWord =>
    cases hrule
    exact localStatement_sound he hb h
  case name | leftParen =>
    cases hrule
    exact assignOrCall_sound he h
  all_goals cases hrule

theorem statementRule_complete (he : ReadsExpression n 0 expression) (hb : ReadsBlock n block)
    (hneed : st.need ≤ n) (hproper : st.Proper) (h : Spans st.writing s t)
    (hstop : st.Stops t.symbol) :
    ∃ rule, statementRule expression block s.symbol = some rule ∧ rule s = .ok st t := by
  have first : ∀ {y : Symbol} {rest : List Stretch}, st.writing = .mark y :: rest →
      s.symbol = y := by
    intro y rest hw
    rw [hw] at h
    obtain ⟨u, hu, -⟩ := h
    exact hu.1
  cases st with
  | doBlock body =>
    refine ⟨_, by rw [first (by rw [Statement.writing])]; rfl, ?_⟩
    exact (doStatement_eq_ok hb).2 ⟨body, rfl, ⟨hneed, hproper⟩, h⟩
  | whileLoop test body =>
    refine ⟨_, by rw [first (by rw [Statement.writing])]; rfl, ?_⟩
    exact (whileStatement_eq_ok he hb).2 ⟨test, body, rfl, ⟨hneed, hproper⟩, h⟩
  | repeatLoop body test =>
    refine ⟨_, by rw [first (by rw [Statement.writing])]; rfl, ?_⟩
    exact (repeatStatement_eq_ok he hb).2 ⟨body, test, rfl, ⟨hneed, hproper⟩, h, hstop⟩
  | choice test body others otherwise =>
    have hs : s.symbol = .ifWord := by
      cases otherwise <;> exact first (by rw [Statement.writing])
    refine ⟨_, by rw [hs]; rfl, ?_⟩
    exact (ifStatement_eq_ok he hb).2 ⟨test, body, others, otherwise, rfl, ⟨hneed, hproper⟩, h⟩
  | numericFor name start limit step body =>
    have hs : s.symbol = .forWord := by
      cases step <;> exact first (by rw [Statement.writing])
    refine ⟨_, by rw [hs]; rfl, ?_⟩
    exact (forStatement_eq_ok he hb).2 ⟨.inr ⟨_, _, _, _, _, rfl⟩, ⟨hneed, hproper⟩, h⟩
  | genericFor names values body =>
    refine ⟨_, by rw [first (by rw [Statement.writing])]; rfl, ?_⟩
    exact (forStatement_eq_ok he hb).2 ⟨.inl ⟨_, _, _, rfl⟩, ⟨hneed, hproper⟩, h⟩
  | function name body =>
    refine ⟨_, by rw [first (by rw [Statement.writing])]; rfl, ?_⟩
    exact (functionStatement_eq_ok hb).2 ⟨name, body, rfl, ⟨hneed, hproper⟩, h⟩
  | localFunction name body =>
    refine ⟨_, by rw [first (by rw [Statement.writing])]; rfl, ?_⟩
    exact localStatement_complete he hb trivial hneed hproper h hstop
  | localNames names =>
    refine ⟨_, by rw [first (by rw [Statement.writing])]; rfl, ?_⟩
    exact localStatement_complete he hb trivial hneed hproper h hstop
  | localAssign names values =>
    refine ⟨_, by rw [first (by rw [Statement.writing])]; rfl, ?_⟩
    exact localStatement_complete he hb trivial hneed hproper h hstop
  | assign targets values =>
    have hs : s.symbol = .name ∨ s.symbol = .leftParen := by
      rw [Statement.Proper] at hproper
      obtain ⟨target, more, rfl⟩ := List.exists_cons_of_ne_nil hproper.1
      rw [Statement.writing, Variable.writings_cons] at h
      obtain ⟨u, hrow, -⟩ := spans_append.1 h
      obtain ⟨v, htarget, -⟩ := spans_append.1 hrow
      exact (PrefixExpression.var target).symbol_of_spans (by rwa [PrefixExpression.writing])
    refine ⟨assignOrCall expression, by obtain hs | hs := hs <;> rw [hs] <;> rfl, ?_⟩
    exact assignOrCall_complete he trivial hneed hproper h hstop
  | call c =>
    have hs : s.symbol = .name ∨ s.symbol = .leftParen := by
      rw [Statement.writing] at h
      exact (PrefixExpression.call c).symbol_of_spans (by rwa [PrefixExpression.writing])
    refine ⟨assignOrCall expression, by obtain hs | hs := hs <;> rw [hs] <;> rfl, ?_⟩
    exact assignOrCall_complete he trivial hneed hproper h hstop

theorem size_lt_of_spans_statement (hproper : st.Proper) (h : Spans st.writing s t) :
    t.size < s.size := by
  cases st with
  | assign targets values =>
    rw [Statement.Proper] at hproper
    obtain ⟨target, more, rfl⟩ := List.exists_cons_of_ne_nil hproper.1
    rw [Statement.writing, Variable.writings_cons] at h
    obtain ⟨u, hrow, h⟩ := spans_append.1 h
    obtain ⟨v, htarget, hmore⟩ := spans_append.1 hrow
    have hfirst := (PrefixExpression.var target).size_lt_of_spans (s := s) (t := v)
      (by rwa [PrefixExpression.writing])
    exact h.size_le.trans_lt (hmore.size_le.trans_lt hfirst)
  | call c =>
    rw [Statement.writing] at h
    exact (PrefixExpression.call c).size_lt_of_spans (by rwa [PrefixExpression.writing])
  | choice test body others otherwise =>
    cases otherwise <;> rw [Statement.writing] at h <;> exact Spans.size_lt h
  | numericFor name start limit step body =>
    cases step <;> rw [Statement.writing] at h <;> exact Spans.size_lt h
  | _ =>
    rw [Statement.writing] at h
    exact Spans.size_lt h

/-! ## Rounds over statements -/

/-- What one round of the loop over statements does. -/
theorem blockStep_eq_ok {found : List Statement} {ending : Ending}
    {r : (List Statement × Ending) × Bool} :
    blockStep expression block (found, ending) s = .ok r t ↔
      (s.symbol = .semicolon ∧ s.Next t ∧ r = ((found, ending), true)) ∨
      (∃ rule st, statementRule expression block s.symbol = some rule ∧ rule s = .ok st t ∧
        r = ((st :: found, ending), true)) ∨
      (∃ e, s.symbol = .returnWord ∧ returnStatement expression s = .ok e t ∧
        r = ((found, e), false)) ∨
      (s.symbol = .breakWord ∧ s.Next t ∧ r = ((found, .breaks), false)) ∨
      (s.symbol.continuesBlock = false ∧ s = t ∧ r = ((found, ending), false)) := by
  have ruled : ∀ {rule : Reading Statement},
      (rule >>= fun st => (pure ((st :: found, ending), true) :
        Reading ((List Statement × Ending) × Bool))) s = .ok r t ↔
      ∃ st, rule s = .ok st t ∧ r = ((st :: found, ending), true) := by
    intro rule
    rw [bind_eq_ok]
    constructor
    · rintro ⟨st, u, hu, h⟩
      obtain ⟨rfl, rfl⟩ := pure_eq_ok.1 h
      exact ⟨st, hu, rfl⟩
    · rintro ⟨st, hst, rfl⟩
      exact ⟨st, t, hst, rfl⟩
  change (Reading.symbol >>= _) s = _ ↔ _
  rw [bind_of_ok symbol_eq]
  cases hs : s.symbol
  case doWord | whileWord | repeatWord | ifWord | forWord | functionWord | localWord | name
    | leftParen =>
    simp only [ruled, statementRule, Option.some.injEq, reduceCtorEq, false_and, exists_false,
      Symbol.continuesBlock, Bool.true_eq_false, or_false, false_or, exists_and_left,
      exists_eq_left']
  case semicolon | breakWord =>
    have hne : s.symbol ≠ .endOfFile := by simp [hs]
    simp only [monadLift_self, bind_eq_ok, pure_eq_ok, consume_eq_ok hne, statementRule,
      reduceCtorEq, false_and, exists_false, Symbol.continuesBlock, Bool.true_eq_false, or_false,
      false_or, true_and]
    constructor
    · rintro ⟨_, u, hu, rfl, rfl⟩
      exact ⟨hu, rfl⟩
    · rintro ⟨hu, rfl⟩
      exact ⟨(), t, hu, rfl, rfl⟩
  case returnWord =>
    simp only [bind_eq_ok, pure_eq_ok, statementRule, reduceCtorEq, false_and, exists_false,
      Symbol.continuesBlock, Bool.true_eq_false, or_false, false_or, true_and]
    constructor
    · rintro ⟨e, u, hu, rfl, rfl⟩
      exact ⟨e, hu, rfl⟩
    · rintro ⟨e, hu, rfl⟩
      exact ⟨e, t, hu, rfl, rfl⟩
  all_goals
    simp only [pure_eq_ok, statementRule, reduceCtorEq, false_and, exists_false,
      Symbol.continuesBlock, false_or, true_and]
    exact ⟨fun ⟨hr, hst⟩ => ⟨hst, hr.symm⟩, fun ⟨hst, hr⟩ => ⟨hr.symm, hst⟩⟩

theorem progresses_blockStep (he : ReadsExpression n 0 expression) (hb : ReadsBlock n block) :
    Progresses (blockStep expression block) := by
  rintro ⟨found, ending⟩ r s t h
  obtain ⟨-, hnext, -⟩ | ⟨rule, st, hrule, hst, -⟩ | ⟨e, -, -, hr⟩ | ⟨-, -, hr⟩ | ⟨-, -, hr⟩ :=
    blockStep_eq_ok.1 h
  · exact hnext.size_lt
  · obtain ⟨⟨-, hproper⟩, hspan, -⟩ := statementRule_sound he hb hrule hst
    exact size_lt_of_spans_statement hproper hspan
  all_goals cases hr

/-! ## Blocks -/

/-- Statements with the semicolons in front of each. -/
def statementsWriting (statements : List Statement) : List Stretch :=
  statements.flatMap fun st => .semicolons :: (st.writing ++ [.ahead st.Stops])

theorem semicolons_writingAll (statements : List Statement) :
    .semicolons :: Statement.writingAll statements =
      statementsWriting statements ++ [.semicolons] := by
  induction statements with
  | nil => rw [Statement.writingAll]; rfl
  | cons st rest ih => simp [Statement.writingAll, ih, statementsWriting]

/-- Before a statement, semicolons have been passed as far as they go. -/
theorem symbol_ne_semicolon_of_rule {y : Symbol} {rule : Reading Statement}
    (h : statementRule expression block y = some rule) : y ≠ .semicolon := by
  rintro rfl
  cases h

/-- The statements that were found since `s` and any semicolons after them end here. -/
def Collected (n : Nat) (s : TokenStream) (found : List Statement) (u : TokenStream) : Prop :=
  (∀ st ∈ found, st.need ≤ n ∧ st.Proper) ∧ ∃ v, Spans (statementsWriting found.reverse) s v ∧
    Relation.ReflTransGen (fun u v => u.symbol = .semicolon ∧ u.Next v) v u

theorem Collected.semicolon {found : List Statement} {u v : TokenStream}
    (h : Collected n s found u) (hu : u.symbol = .semicolon) (hv : u.Next v) :
    Collected n s found v := by
  obtain ⟨hall, w, hfront, hrun⟩ := h
  exact ⟨hall, w, hfront, hrun.tail ⟨hu, hv⟩⟩

theorem Collected.statement {found : List Statement} {u v : TokenStream}
    (h : Collected n s found u) (hu : u.symbol ≠ .semicolon) (hfits : st.need ≤ n ∧ st.Proper)
    (hspan : Spans st.writing u v) (hstop : st.Stops v.symbol) :
    Collected n s (st :: found) v := by
  obtain ⟨hall, w, hfront, hrun⟩ := h
  refine ⟨by simpa using ⟨hfits, hall⟩, v, ?_, .refl⟩
  simp only [statementsWriting, List.reverse_cons, List.flatMap_append, List.flatMap_cons,
    List.flatMap_nil, List.append_nil, spans_append, spans_cons]
  exact ⟨w, hfront, u, ⟨hrun, hu⟩, v, hspan, v, ⟨hstop, rfl⟩, rfl⟩

theorem Collected.spans {found : List Statement} {u : TokenStream}
    (h : Collected n s found u) (hu : u.symbol ≠ .semicolon) :
    Spans (.semicolons :: Statement.writingAll found.reverse) s u := by
  obtain ⟨-, w, hfront, hrun⟩ := h
  rw [semicolons_writingAll]
  exact spans_append.2 ⟨w, hfront, u, ⟨hrun, hu⟩, rfl⟩

/-- What is left to do once the statements and the ending have been read. -/
theorem afterEnding_eq_ok {statements : List Statement} {ending : Ending} {b : Block} :
    (do
      if ending.isStatement then
        let _ ← tryConsume .semicolon
      pure (.mk statements ending) : Reading Block) s = .ok b t ↔
      b = .mk statements ending ∧
        Spans (if ending.isStatement then [.lastSemicolon] else []) s t := by
  cases ending.isStatement with
  | false =>
    simp only [Bool.false_eq_true, if_false, spans_nil]
    exact ⟨fun h => (pure_eq_ok.1 h).imp_left Eq.symm, fun h => pure_eq_ok.2 (h.imp_left Eq.symm)⟩
  | true =>
    simp only [if_true, bind_eq_ok, pure_eq_ok, spans_cons, spans_nil, exists_eq_right,
      tryConsume_eq_ok (show Symbol.semicolon ≠ .endOfFile by decide), Stretch.Passes]
    constructor
    · rintro ⟨found, u, ⟨-, hs, hu⟩ | ⟨-, hs, rfl⟩, rfl, rfl⟩
      · exact ⟨rfl, .inl ⟨hs, hu⟩⟩
      · exact ⟨rfl, .inr ⟨hs, rfl⟩⟩
    · rintro ⟨rfl, ⟨hs, hu⟩ | ⟨hs, rfl⟩⟩
      · exact ⟨true, t, .inl ⟨rfl, hs, hu⟩, rfl, rfl⟩
      · exact ⟨false, s, .inr ⟨rfl, hs, rfl⟩, rfl, rfl⟩

theorem blockWith_sound (he : ReadsExpression n 0 expression) (hb : ReadsBlock n block)
    {b : Block} (h : blockWith expression block s = .ok b t) :
    (b.need ≤ n + 1 ∧ b.Proper) ∧ Spans b.writing s t := by
  obtain ⟨⟨found, ending⟩, u, hloop, h⟩ := bind_eq_ok.1 h
  obtain ⟨hall, ⟨en, ep⟩, v, hfront, hending, hstop⟩ :
      (∀ st ∈ found, st.need ≤ n ∧ st.Proper) ∧ (ending.need ≤ n ∧ ending.Proper) ∧
        ∃ v, Spans (.semicolons :: Statement.writingAll found.reverse) s v ∧
          Spans ending.writing v u ∧ ending.Stops u.symbol := by
    refine loop_invariant (progresses_blockStep he hb)
      (fun (r : List Statement × Ending) u => r.2 = .falls ∧ Collected n s r.1 u)
      (fun r u => (∀ st ∈ r.1, st.need ≤ n ∧ st.Proper) ∧ (r.2.need ≤ n ∧ r.2.Proper) ∧
        ∃ v, Spans (.semicolons :: Statement.writingAll r.1.reverse) s v ∧
          Spans r.2.writing v u ∧ r.2.Stops u.symbol) ?_ ?_ ?_ hloop
    · rintro ⟨found, ending⟩ r u v ⟨rfl, hsofar⟩ h
      obtain ⟨hu, hv, hr⟩ | ⟨rule, st, hrule, hst, hr⟩ | ⟨e, -, -, hr⟩ | ⟨-, -, hr⟩ |
        ⟨-, -, hr⟩ := blockStep_eq_ok.1 h <;> cases hr
      · exact ⟨rfl, hsofar.semicolon hu hv⟩
      · obtain ⟨hfits, hspan, hstop⟩ := statementRule_sound he hb hrule hst
        exact ⟨rfl, hsofar.statement (symbol_ne_semicolon_of_rule hrule) hfits hspan hstop⟩
    · rintro ⟨found, ending⟩ r u v ⟨rfl, hsofar⟩ h
      obtain ⟨-, -, hr⟩ | ⟨rule, st, -, -, hr⟩ | ⟨e, hu, he', hr⟩ | ⟨hu, hv, hr⟩ |
        ⟨hu, rfl, hr⟩ := blockStep_eq_ok.1 h <;> cases hr
      · obtain ⟨hfits, hspan, hstop, -⟩ := returnStatement_sound he he'
        exact ⟨hsofar.1, hfits, u, hsofar.spans (by simp [hu]), hspan, hstop⟩
      · refine ⟨hsofar.1, ?_, u, hsofar.spans (by simp [hu]), ?_, trivial⟩
        · simp [Ending.need, Ending.Proper]
        · rw [Ending.writing]
          exact ⟨v, ⟨hu, hv⟩, rfl⟩
      · have hne : u.symbol ≠ .semicolon := by
          intro hs
          rw [hs] at hu
          cases hu
        refine ⟨hsofar.1, ?_, u, hsofar.spans hne, ?_, hu⟩
        · simp [Ending.need, Ending.Proper]
        · rw [Ending.writing]
          rfl
    · exact ⟨rfl, by simp, s, rfl, .refl⟩
  have hfits : Statement.needAll found.reverse ≤ n ∧ Statement.ProperAll found.reverse := by
    rw [Statement.needAll_le, Statement.properAll_iff]
    exact ⟨fun st hst => (hall st (List.mem_reverse.1 hst)).1,
      fun st hst => (hall st (List.mem_reverse.1 hst)).2⟩
  obtain ⟨rfl, hlast⟩ := afterEnding_eq_ok.1 h
  rw [Block.need, Block.Proper, Block.writing, ← List.cons_append]
  refine ⟨⟨by omega, hfits.2, ep⟩, spans_append.2 ⟨v, hfront, spans_append.2 ⟨u, hending, ?_⟩⟩⟩
  exact ⟨u, ⟨hstop, rfl⟩, hlast⟩

theorem loop_blockStep_of_semicolons (he : ReadsExpression n 0 expression)
    (hb : ReadsBlock n block) {found : List Statement} (h : Stretch.semicolons.Passes s t) :
    loop (blockStep expression block) (found, .falls) s =
      loop (blockStep expression block) (found, .falls) t := by
  obtain ⟨hrun, -⟩ := h
  induction hrun with
  | refl => rfl
  | tail _ step ih =>
    rw [ih]
    exact loop_of_more (progresses_blockStep he hb)
      (blockStep_eq_ok.2 (.inl ⟨step.1, step.2, rfl⟩))

theorem loop_blockStep_of_ending (he : ReadsExpression n 0 expression) (hb : ReadsBlock n block)
    {found : List Statement} {ending : Ending} (hneed : ending.need ≤ n) (hproper : ending.Proper)
    (h : Spans ending.writing s t) (hstop : ending.Stops t.symbol) :
    loop (blockStep expression block) (found, .falls) s = .ok (found, ending) t := by
  refine loop_of_done (progresses_blockStep he hb) (blockStep_eq_ok.2 ?_)
  cases ending with
  | falls =>
    rw [Ending.writing] at h
    cases h
    exact .inr (.inr (.inr (.inr ⟨hstop, rfl, rfl⟩)))
  | breaks =>
    rw [Ending.writing] at h
    obtain ⟨u, hu, rfl⟩ := h
    exact .inr (.inr (.inr (.inl ⟨hu.1, hu.2, rfl⟩)))
  | returns values =>
    rw [Ending.need] at hneed
    rw [Ending.Proper] at hproper
    have hs : s.symbol = .returnWord := by
      rw [Ending.writing] at h
      obtain ⟨u, hu, -⟩ := h
      exact hu.1
    exact .inr (.inr (.inl ⟨_, hs, returnStatement_complete he hneed hproper h hstop, rfl⟩))

theorem loop_blockStep_of_spans (he : ReadsExpression n 0 expression) (hb : ReadsBlock n block)
    {ending : Ending} (en : ending.need ≤ n) (ep : ending.Proper) :
    ∀ (statements found : List Statement) {s : TokenStream}, Statement.needAll statements ≤ n →
      Statement.ProperAll statements →
      Spans (.semicolons :: (Statement.writingAll statements ++ ending.writing)) s t →
      ending.Stops t.symbol →
      loop (blockStep expression block) (found, .falls) s =
        .ok (statements.reverse ++ found, ending) t := by
  intro statements
  induction statements with
  | nil =>
    intro found s hneed hproper h hstop
    rw [Statement.writingAll] at h
    obtain ⟨u, hu, h⟩ := h
    rw [loop_blockStep_of_semicolons he hb hu, loop_blockStep_of_ending he hb en ep h hstop]
    rfl
  | cons st rest ih =>
    intro found s hneed hproper h hstop
    rw [Statement.needAll] at hneed
    rw [Statement.ProperAll] at hproper
    rw [Statement.writingAll] at h
    obtain ⟨u, hu, h⟩ := h
    rw [List.append_assoc] at h
    obtain ⟨v, hst, _, ⟨hstops, rfl⟩, h⟩ := spans_append.1 h
    obtain ⟨rule, hrule, hst⟩ := statementRule_complete he hb (by omega) hproper.1 hst hstops
    rw [loop_blockStep_of_semicolons he hb hu, loop_of_more (progresses_blockStep he hb)
      (blockStep_eq_ok.2 (.inr (.inl ⟨rule, st, hrule, hst, rfl⟩))),
      ih (st :: found) (by omega) hproper.2 h hstop]
    simp

theorem readsBlock_blockWith (he : ReadsExpression n 0 expression) (hb : ReadsBlock n block) :
    ReadsBlock (n + 1) (blockWith expression block) := by
  intro b s t
  refine ⟨blockWith_sound he hb, ?_⟩
  obtain ⟨statements, ending⟩ := b
  rintro ⟨⟨hneed, hproper⟩, h⟩
  rw [Block.need] at hneed
  rw [Block.Proper] at hproper
  rw [Block.writing, ← List.cons_append] at h
  obtain ⟨u, hfront, h⟩ := spans_append.1 h
  obtain ⟨v, hending, _, ⟨hstop, rfl⟩, hlast⟩ := spans_append.1 h
  have hloop := loop_blockStep_of_spans he hb (t := v) (by omega) hproper.2 statements []
    (by omega) hproper.1
    (by rw [← List.cons_append]; exact spans_append.2 ⟨u, hfront, hending⟩) hstop
  rw [blockWith, bind_of_ok hloop]
  exact afterEnding_eq_ok.2 ⟨by simp, hlast⟩

end Rules

/-! ## Levels -/

theorem tooManyLevels_ne_ok {α : Type} {a : α} : (tooManyLevels : Reading α) s ≠ .ok a t :=
  fail_ne_ok

theorem operand_zero : operand 0 = tooManyLevels := by
  funext s
  rw [operand]

theorem operand_succ (n : Nat) :
    operand (n + 1) = operandWith (m := Reading) (place (operand n) (climb n) 0)
      (place (operand n) (climb n) UnaryOp.power) (block n) := by
  funext s
  rw [operand]

theorem climb_zero : climb 0 = climbWith (m := Reading) fun _ => tooManyLevels := by
  funext limit left s
  rw [climb]

theorem climb_succ (n : Nat) :
    climb (n + 1) = climbWith (m := Reading) (place (operand n) (climb n)) := by
  funext limit left s
  rw [climb]

/-- The reading of a right operand with `levels` levels left for it. -/
def rightOperand : (levels : Nat) → (power : Nat) → Reading Expression
  | 0 => fun _ => tooManyLevels
  | n + 1 => place (operand n) (climb n)

/-- This is what the loop over operators reads after each of them. -/
theorem climb_eq (levels : Nat) : climb levels = climbWith (rightOperand levels) := by
  cases levels with
  | zero => exact climb_zero
  | succ n => exact climb_succ n

theorem block_zero : block 0 = tooManyLevels := by
  funext s
  rw [block]

theorem block_succ (n : Nat) :
    block (n + 1) = blockWith (m := Reading) (place (operand n) (climb n) 0) (block n) := by
  funext s
  rw [block]

/-- With any number of levels, the readings that the grammar ties together are exact. -/
theorem reads_levels (n : Nat) :
    ReadsOperand n (operand n) ∧
      (∀ power, ReadsExpression n power (place (operand n) (climb n) power)) ∧
      ReadsBlock n (block n) := by
  induction n with
  | zero =>
    -- Without a level left nothing is read, and every tree needs one.
    have hoperand : ∀ {e s t}, operand 0 s ≠ .ok e t := by
      intro e s t
      rw [operand]
      exact tooManyLevels_ne_ok
    refine ⟨fun e s t => ⟨fun h => absurd h hoperand, ?_⟩, fun power e s t => ⟨?_, ?_⟩,
      fun b s t => ⟨fun h => ?_, ?_⟩⟩
    · rintro ⟨-, ⟨hneed, -⟩, -⟩
      exact absurd hneed (by have := e.need_pos; omega)
    · intro h
      obtain ⟨first, u, hfirst, -⟩ := bind_eq_ok.1 h
      exact absurd hfirst hoperand
    · rintro ⟨⟨hneed, -⟩, -⟩
      exact absurd hneed (by have := e.need_pos; omega)
    · rw [block] at h
      exact absurd h tooManyLevels_ne_ok
    · rintro ⟨⟨hneed, -⟩, -⟩
      exact absurd hneed (by have := b.need_pos; omega)
  | succ n ih =>
    obtain ⟨-, hplace, hblock⟩ := ih
    have ho : ReadsOperand (n + 1) (operand (n + 1)) := by
      intro e s t
      rw [operand]
      exact readsOperand_operandWith (hplace 0) (hplace UnaryOp.power) hblock e s t
    refine ⟨ho, fun power => ?_, fun b s t => ?_⟩
    · rw [climb_succ]
      exact readsExpression_place ho hplace power
    · rw [block]
      exact readsBlock_blockWith (hplace 0) hblock b s t

theorem expression_eq_ok {e : Expression} :
    Grammar.expression n s = .ok e t ↔ (e.need ≤ n ∧ e.Proper 0) ∧ Spans e.writing s t ∧
      (e.Stops t.symbol ∧ t.symbol.Below 0) :=
  (reads_levels n).2.1 0 e s t

theorem block_eq_ok {b : Block} :
    Grammar.block n s = .ok b t ↔ (b.need ≤ n ∧ b.Proper) ∧ Spans b.writing s t :=
  (reads_levels n).2.2 b s t

theorem chunk_eq_ok {b : Block} :
    chunk n s = .ok b t ↔
      (b.need ≤ n ∧ b.Proper) ∧ Spans b.writing s t ∧ t.symbol = .endOfFile := by
  constructor
  · intro h
    obtain ⟨tree, u, hu, h⟩ := bind_eq_ok.1 h
    obtain ⟨_, v, hv, hr⟩ := bind_eq_ok.1 h
    obtain ⟨rfl, rfl⟩ := pure_eq_ok.1 hr
    obtain ⟨hend, rfl⟩ := expect_endOfFile_eq_ok.1 hv
    obtain ⟨hfits, hspan⟩ := block_eq_ok.1 hu
    exact ⟨hfits, hspan, hend⟩
  · rintro ⟨hfits, hspan, hend⟩
    exact bind_eq_ok.2 ⟨b, t, block_eq_ok.2 ⟨hfits, hspan⟩,
      bind_eq_ok.2 ⟨(), t, expect_endOfFile_eq_ok.2 ⟨hend, rfl⟩, rfl⟩⟩

end LuaLang.Grammar

namespace LuaLang

/-- The tree of what was scanned: it can be read with the levels there are, and its writing spans
all that was scanned. -/
theorem Reading.ofScanned_chunk_eq_ok {scanned : List Scanned} {levels : Nat} {b : Block} :
    (Grammar.chunk levels).ofScanned scanned = .ok b ↔
      (b.need ≤ levels ∧ b.Proper) ∧ ∃ s t, TokenStream.ofScanned scanned = .ok s ∧
        Spans b.writing s t ∧ t.symbol = .endOfFile := by
  rw [Reading.ofScanned]
  cases TokenStream.ofScanned scanned with
  | error e => simp
  | ok s =>
    dsimp only
    constructor
    · intro h
      split at h
      · next t hchunk =>
        cases h
        obtain ⟨hfits, hspan, hend⟩ := Grammar.chunk_eq_ok.1 hchunk
        exact ⟨hfits, s, t, rfl, hspan, hend⟩
      · cases h
    · rintro ⟨hfits, _, t, ⟨rfl⟩, hspan, hend⟩
      rw [Grammar.chunk_eq_ok.2 ⟨hfits, hspan, hend⟩]

end LuaLang
