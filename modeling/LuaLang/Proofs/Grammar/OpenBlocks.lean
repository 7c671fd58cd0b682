import Mathlib
import LuaLang.Proofs.Grammar.OpenExpressions

/-!
# Blocks that the source ended in

Each rule for statements and blocks is mended if the readings of expressions and blocks that it is
given are.

## Main statements

* `mends_statementRule`: a statement of any kind.
* `mends_blockWith`, `chunk_mended`: blocks and whole sources.
-/

namespace LuaLang.Brink

open Reading TokenStream Grammar

variable {α : Type} {z : Brink} {m n : Nat} {s : TokenStream}
  {expression : Reading Expression} {block : Reading Block}

/-- The statement can be read with `n` levels, and the stretches are its writing. -/
def WritesStatement (n : Nat) (st : Statement) (l : List Stretch) : Prop :=
  (st.need ≤ n ∧ st.Proper) ∧ l = st.writing

/-- One item after a mark, if there is a mark. -/
theorem mends_optionalAfter {mark : Symbol} {item : Reading α} {P : α → Prop}
    {w : α → List Stretch} {F : Symbol → Prop} {ys : List Terminal} (hm : mark ≠ .endOfFile)
    (h : z.Mends (fun a l => P a ∧ l = w a) F ys item) :
    z.Mends (fun found l => (∀ a ∈ found, P a) ∧
        l = found.elim [] fun a => .mark mark :: w a) F [] (optionalAfter mark item) := by
  have hitem : z.Mends (fun found l => (∀ a ∈ found, P a) ∧
      .mark mark :: l = found.elim [] fun a => .mark mark :: w a) F ys (some <$> item) := by
    rw [map_eq_pure_bind]
    refine h.bind_pure fun a l ⟨ha, hl⟩ => ⟨by simpa using ha, ?_⟩
    subst hl
    rfl
  exact mends_tryConsume hm hitem (mends_pure ⟨by simp, rfl⟩)

section Statements

variable (he : ReadsExpression m 0 expression) (hb : ReadsBlock m block)
  (h : z.MendsExpression n 0 expression) (hmb : z.MendsBlock n block)

include hmb in
theorem mends_doStatement :
    z.Mends (WritesStatement n) Anything [.mark .doWord, .mark .endWord] (doStatement block) := by
  refine mends_expect_bind (by decide) (hmb.bind (fun body l ⟨⟨bn, bp⟩, hl⟩ => ?_) ?_)
  · subst hl
    refine mends_expect_bind (by decide) (mends_pure ?_)
    simp [WritesStatement, bn, bp]
  · rintro _ rfl
    rfl

include h hmb in
theorem mends_whileStatement :
    z.Mends (WritesStatement n) Anything
      [.mark .whileWord, .mark .nilWord, .mark .doWord, .mark .endWord]
      (whileStatement expression block) := by
  refine mends_expect_bind (by decide) (h.bind (fun test l ⟨⟨tn, tp⟩, hl⟩ => ?_) fun _ _ => trivial)
  subst hl
  refine mends_expect_bind (by decide) (hmb.bind (fun body l ⟨⟨bn, bp⟩, hl⟩ => ?_) ?_)
  · subst hl
    refine mends_expect_bind (by decide) (mends_pure ?_)
    simp [WritesStatement, tn, tp, bn, bp]
  · rintro _ rfl
    rfl

include h hmb in
theorem mends_repeatStatement :
    z.Mends (WritesStatement n) Anything [.mark .repeatWord, .mark .untilWord, .mark .nilWord]
      (repeatStatement expression block) := by
  refine mends_expect_bind (by decide) (hmb.bind (fun body l ⟨⟨bn, bp⟩, hl⟩ => ?_) ?_)
  · subst hl
    refine mends_expect_bind (by decide) (h.bind_pure fun test l ⟨⟨tn, tp⟩, hl⟩ => ?_)
    subst hl
    simp [WritesStatement, tn, tp, bn, bp]
  · rintro _ rfl
    rfl

include he hb h hmb in
theorem mends_elseIfs :
    z.Mends (fun others l => (ElseIf.needAll others ≤ n ∧ ElseIf.ProperAll others) ∧
        l = ElseIf.writingAll others) (fun y => y.endsBlock = true) []
      (elseIfs expression block) := by
  have hother : z.Mends (fun other l => (ElseIf.need other ≤ n ∧ other.Proper) ∧ l = other.writing)
      (fun y => y.endsBlock = true) [.mark .nilWord, .mark .thenWord]
      (elseIf expression block) := by
    refine h.bind (fun test l ⟨⟨tn, tp⟩, hl⟩ => ?_) fun _ _ => trivial
    subst hl
    refine mends_expect_bind (by decide) (hmb.bind_pure fun body l ⟨⟨bn, bp⟩, hl⟩ => ?_)
    subst hl
    simp [ElseIf.need, ElseIf.Proper, ElseIf.writing, tn, tp, bn, bp]
  have hprogress : Progresses (oneMore .elseifWord (elseIf expression block)) :=
    progresses_oneMore (by decide) (elseIf_eq_ok he hb) fun h => h.2.1.size_le
  rw [elseIfs_eq]
  refine (mends_loop_oneMore (by decide) hprogress hother []).bind_pure ?_
  rintro _ _ ⟨more, rfl, hall, rfl⟩
  simpa only [List.append_nil, List.reverse_reverse, ElseIf.needAll_le, ElseIf.properAll_iff,
    ElseIf.writingAll_eq, forall_and, and_true] using hall

include he hb h hmb in
theorem mends_ifStatement :
    z.Mends (WritesStatement n) Anything
      [.mark .ifWord, .mark .nilWord, .mark .thenWord, .mark .endWord]
      (ifStatement expression block) := by
  rw [ifStatement_eq]
  refine mends_expect_bind (by decide) (h.bind (fun test l ⟨htest, hl⟩ => ?_) fun _ _ => trivial)
  subst hl
  refine mends_expect_bind (by decide) (hmb.bind (fun body l ⟨hbody, hl⟩ => ?_) ?_)
  · subst hl
    refine (mends_elseIfs he hb h hmb).bind (fun others l ⟨hothers, hl⟩ => ?_) ?_
    · subst hl
      refine (mends_optionalAfter (by decide) hmb).bind (fun otherwise l ⟨hother, hl⟩ => ?_) ?_
      · subst hl
        refine mends_expect_bind (by decide) (mends_pure ⟨?_, ?_⟩)
        · exact Statement.choice_fits.2 ⟨htest, hbody, hothers, hother⟩
        · rw [Statement.choice_writing]
      · rintro _ rfl
        rfl
    · rintro _ rfl
      rfl
  · rintro _ rfl
    rfl

/-! ## Loops over names and numbers -/

include he h hmb in
theorem mends_genericFor :
    z.Mends (fun st l => (Statement.need st ≤ n ∧ st.Proper) ∧
        .mark .forWord :: (l ++ [.mark .endWord]) = st.writing) (fun y => y.endsBlock = true)
      [.name "x", .mark .inWord, .mark .nilWord, .mark .doWord] (genericFor expression block) := by
  refine (mends_nameRow (by decide)).bind (fun names l ⟨hne, hl⟩ => ?_) fun _ _ => trivial
  subst hl
  refine mends_expect_bind (by decide) ((mends_expressions he h).bind
    (fun values l ⟨⟨hvs, vn, vp⟩, hl⟩ => ?_) fun _ _ => trivial)
  subst hl
  refine mends_expect_bind (by decide) (hmb.bind_pure fun body l ⟨⟨bn, bp⟩, hl⟩ => ?_)
  subst hl
  simp [hne, hvs, vn, vp, bn, bp]

include h hmb in
theorem mends_numericFor :
    z.Mends (fun st l => (Statement.need st ≤ n ∧ st.Proper) ∧
        .mark .forWord :: (l ++ [.mark .endWord]) = st.writing) (fun y => y.endsBlock = true)
      [.name "x", .mark .equal, .mark .nilWord, .mark .comma, .mark .nilWord, .mark .doWord]
      (numericFor expression block) := by
  rw [numericFor_eq]
  refine mends_name.bind (fun name l hl => ?_) fun _ _ => trivial
  subst hl
  refine mends_expect_bind (by decide) (h.bind (fun start l ⟨hstart, hl⟩ => ?_) fun _ _ => trivial)
  subst hl
  refine mends_expect_bind (by decide) (h.bind (fun limit l ⟨hlimit, hl⟩ => ?_) fun _ _ => trivial)
  subst hl
  refine (mends_optionalAfter (by decide) h).bind (fun step l ⟨hstep, hl⟩ => ?_) fun _ _ => trivial
  subst hl
  refine mends_expect_bind (by decide) (hmb.bind_pure fun body l ⟨hbody, hl⟩ => ?_)
  subst hl
  refine ⟨Statement.numericFor_fits.2 ⟨hstart, hlimit, hstep, hbody⟩, ?_⟩
  rw [Statement.numericFor_writing]
  simp only [List.append_assoc, List.cons_append, List.nil_append]

include he h hmb in
theorem mends_forLoop (y : Symbol) :
    ∃ ys, z.Mends (fun st l => (Statement.need st ≤ n ∧ st.Proper) ∧
      .mark .forWord :: l = st.writing) Anything (.name "x" :: ys)
      (forLoop expression block y) := by
  have hend : ∀ {x : Reading Statement} {ys : List Terminal},
      z.Mends (fun st l => (Statement.need st ≤ n ∧ st.Proper) ∧
        .mark .forWord :: (l ++ [.mark .endWord]) = st.writing) (fun y => y.endsBlock = true)
        (.name "x" :: ys) x →
      z.Mends (fun st l => (Statement.need st ≤ n ∧ st.Proper) ∧ .mark .forWord :: l = st.writing)
        Anything (.name "x" :: (ys ++ [.mark .endWord]))
        (do let st ← x; expect .endWord; pure st) := by
    intro x ys hx
    refine hx.bind (fun st l ⟨hfits, hl⟩ => ?_) ?_
    · exact mends_expect_bind (by decide) (mends_pure ⟨hfits, hl⟩)
    · rintro _ rfl
      rfl
  cases y
  case comma => exact ⟨_, hend (mends_genericFor he h hmb)⟩
  case inWord => exact ⟨_, hend (mends_genericFor he h hmb)⟩
  all_goals exact ⟨_, hend (mends_numericFor h hmb)⟩

omit he hb h hmb in
/-- Both sorts of loop start with a name. -/
theorem forLoop_of_ne (y : Symbol) (hs : s.symbol ≠ .name) :
    forLoop expression block y s = .error (s.fault (.expected .name s.near)) s := by
  have hname : expectLexeme .name s = .error (s.fault (.expected .name s.near)) s := by
    rw [expectLexeme, if_neg hs]
    rfl
  have hnames : names s = .error (s.fault (.expected .name s.near)) s :=
    bind_eq_error.2 (.inl hname)
  rcases forLoop_eq expression block y with hloop | hloop <;> rw [hloop, bind_eq_error]
  · exact .inl (bind_eq_error.2 (.inl hnames))
  · exact .inl (bind_eq_error.2 (.inl hname))

omit he hb h hmb in
/-- A loop is not read if the source ends after its first name. -/
theorem forLoop_ne_ok {u v : TokenStream} (hsu : s.Next u) (hu : u.symbol = .endOfFile)
    (st : Statement) : forLoop expression block s.nextSymbol s ≠ .ok st v := by
  intro h
  rw [hsu.nextSymbol, hu] at h
  obtain ⟨_, _, hloop, -⟩ := bind_eq_ok.1 h
  obtain ⟨_, w, hname, hrest⟩ := bind_eq_ok.1 hloop
  obtain ⟨_, _, hequal, -⟩ := bind_eq_ok.1 hrest
  have hsw := ((expectLexeme_eq_ok (by decide)).1 hname).2.2
  have hw : w.symbol = .equal := ((expect_eq_ok (by decide)).1 hequal).1
  cases hsw.2.symm.trans hsu.2
  rw [hu] at hw
  cases hw

include he h hmb in
/-- Which loop it is shows in the symbol after the first name; if the source ends there, either can
follow. -/
theorem mends_forStatement :
    ∃ ys, z.Mends (WritesStatement n) Anything (.mark .forWord :: ys)
      (forStatement expression block) := by
  obtain ⟨ys, hend⟩ := mends_forLoop he h hmb .endOfFile
  refine ⟨.name "x" :: ys, ?_⟩
  rw [forStatement_eq_lookahead]
  refine mends_expect_bind (by decide) ⟨fun {t} ht => ?_, hend.fills⟩
  obtain ⟨zs, hfor⟩ := mends_forLoop he h hmb t.nextSymbol
  have hat : z.MendsAt _ Anything (.name "x" :: ys) (forLoop expression block t.nextSymbol) t :=
    (hfor.mendsAt ht).of_cons
  have hsame : (∀ {t'}, t.Extended t' → t.nextSymbol = t'.nextSymbol) → z.MendsAt
      (fun st l => WritesStatement n st (.mark .forWord :: l)) Anything (.name "x" :: ys)
      (do let s ← get; forLoop expression block s.nextSymbol) t := fun hnext =>
    hat.congr rfl fun {t'} ht' => by
      change forLoop expression block t'.nextSymbol t' = _
      rw [hnext ht']
  by_cases htend : t.symbol = .endOfFile
  · exact hsame fun ht' => absurd htend ht'.symbol_ne
  obtain ⟨u, htu, -, hlast, -⟩ := ht.next htend
  by_cases hu : u.symbol = .endOfFile
  · refine ⟨fun hread => absurd hread (forLoop_ne_ok htu hu _),
      fun hread => absurd hread (forLoop_ne_ok htu hu _), fun hend => absurd hend htend,
      fun _ e v hfails hp => ?_⟩
    refine (hat.fails htend hfails hp).imp_left fun ⟨hequal, _⟩ => ⟨hequal, fun t' ht' => ?_⟩
    refine ⟨_, _, forLoop_of_ne t'.nextSymbol ?_⟩
    rw [← ht'.symbol_eq, TokenStream.symbol, hlast hu, hequal]
    decide
  · refine hsame fun ht' => (moreSource.lookahead ht').resolve_right fun hsafe => hu ?_
    rw [htu.2] at hsafe
    exact hsafe

/-! ## Functions and local names -/

omit he hb h in
include hmb in
theorem mends_functionStatement :
    z.Mends (WritesStatement n) Anything
      [.mark .functionWord, .name "x", .mark .leftParen, .mark .rightParen, .mark .endWord]
      (functionStatement block) := by
  refine mends_expect_bind (by decide) (mends_functionName.bind (fun name l ⟨hne, hl⟩ => ?_)
    fun _ _ => trivial)
  subst hl
  refine (mends_functionBody hmb).bind_pure fun body l ⟨⟨bn, bp⟩, hl⟩ => ?_
  subst hl
  simp [WritesStatement, hne, bn, bp]

include he h hmb in
theorem mends_localStatement :
    z.Mends (WritesStatement n) Anything [.mark .localWord, .name "x"]
      (localStatement expression block) := by
  have hnames : z.Mends (fun st l => WritesStatement n st (.mark .localWord :: l)) Anything
      [.name "x"] (do
        let names ← names
        if ← tryConsume .equal then pure (.localAssign names (← expressions expression))
        else pure (.localNames names)) := by
    refine (mends_nameRow (by decide)).bind (fun names l ⟨hne, hl⟩ => ?_) fun _ _ => trivial
    subst hl
    have hvalues : z.Mends (fun st l => WritesStatement n st
        (.mark .localWord :: (nameRow .comma names ++ .mark .equal :: l))) Anything
        [.mark .nilWord] (do pure (.localAssign names (← expressions expression))) := by
      refine (mends_expressions he h).bind_pure fun values l ⟨⟨hvs, vn, vp⟩, hl⟩ => ?_
      subst hl
      simp [WritesStatement, hne, hvs, vn, vp]
    exact mends_tryConsume (by decide) hvalues (mends_pure (by simp [WritesStatement, hne]))
  refine mends_expect_bind (by decide) ⟨fun {t} ht => mendsAt_symbol ?_, hnames.fills⟩
  cases hsymbol : t.symbol
  case functionWord =>
    refine mendsAt_consume [.name "x", .mark .leftParen, .mark .rightParen, .mark .endWord] ht
      hsymbol (by decide) (mends_name.bind (fun name l hl => ?_) fun _ _ => trivial)
    subst hl
    refine (mends_functionBody hmb).bind_pure fun body l ⟨⟨bn, bp⟩, hl⟩ => ?_
    subst hl
    simp [WritesStatement, bn, bp]
  case name => exact hnames.mendsAt ht
  all_goals exact mendsAt_of_fault ht rfl

/-! ## Assignments and calls -/

include he h in
/-- What is no variable becomes one with a field after it. -/
theorem mends_variableOf :
    z.Mends (fun v l => (Variable.need v ≤ n ∧ v.Proper) ∧ l = v.writing) Anything [.name "x"]
      (variableOf expression) := by
  refine ⟨fun hs => ((mends_prefixExpression he h).mendsAt hs).bind_of
    (fun p l t _ ⟨⟨pn, pp⟩, hl⟩ ht => ⟨[], ?_, fun _ _ => trivial, nofun⟩)
    fun p l ⟨⟨pn, pp⟩, hl⟩ => ?_, .name "x", [.name "x"], ?_, fits_one Terminal.spellable_name⟩
  · cases hv : p.toVariable? with
    | none => exact mendsAt_of_fault ht rfl
    | some target =>
      obtain rfl := PrefixExpression.toVariable?_eq_some hv
      subst hl
      refine mendsAt_pure ⟨⟨?_, ?_⟩, ?_⟩ ht
      · rwa [PrefixExpression.need] at pn
      · rwa [PrefixExpression.Proper] at pp
      · simp [PrefixExpression.writing]
  · subst hl
    refine ⟨.field p "x", [.mark .dot, .name "x"], [.mark .dot, .name "x"], ?_,
      (fits_one (Terminal.spellable_mark (by decide))).append (fits_one Terminal.spellable_name)
        fun _ _ => trivial, fun _ _ => trivial⟩
    simp [Variable.need, Variable.Proper, Variable.writing, pn, pp]
  · simp [Variable.need, Variable.Proper, Variable.writing]

include he h in
theorem mends_moreTargets (first : Variable) :
    z.Mends (fun targets l => ∃ more, targets = first :: more ∧
        (∀ v ∈ more, v.need ≤ n ∧ v.Proper) ∧
        l = more.flatMap fun v => .mark .comma :: v.writing) Anything []
      (moreTargets expression first) := by
  have hprogress : Progresses (oneMore .comma (variableOf expression)) :=
    progresses_oneMore (by decide) (variableOf_eq_ok he) fun h => h.2.1.size_le
  refine (mends_loop_oneMore (by decide) hprogress (mends_variableOf he h) [first]).bind_pure ?_
  rintro _ _ ⟨more, rfl, hall, rfl⟩
  exact ⟨more, by simp, hall, rfl⟩

include he h in
theorem mends_assignFrom {target : Variable} (hn : target.need ≤ n) (hp : target.Proper) :
    z.Mends (fun st l => WritesStatement n st (target.writing ++ l)) Anything
      [.mark .equal, .mark .nilWord] (assignFrom expression (.var target)) := by
  refine (mends_moreTargets he h target).bind ?_ fun _ _ => trivial
  rintro _ _ ⟨more, rfl, hall, rfl⟩
  refine mends_expect_bind (by decide) ((mends_expressions he h).bind_pure
    fun values l ⟨⟨hvs, vn, vp⟩, hl⟩ => ?_)
  subst hl
  have hfits : Variable.needAll (target :: more) ≤ n ∧ Variable.ProperAll (target :: more) := by
    rw [Variable.needAll_le, Variable.properAll_iff]
    simpa [forall_and, hn, hp] using hall
  refine ⟨⟨?_, ?_⟩, ?_⟩
  · rw [Statement.need]
    omega
  · rw [Statement.Proper]
    exact ⟨by simp, hfits.2, hvs, vp⟩
  · rw [Statement.writing, Variable.writings_cons, List.append_assoc]

include he h in
/-- What follows a first target, or what is wrong with it. -/
theorem mendsAt_assignFrom {p : PrefixExpression} (hp : p.need ≤ n ∧ p.Proper) (hs : z.Ends s) :
    z.MendsAt (fun st l => WritesStatement n st (p.writing ++ l)) Anything []
      (assignFrom expression p) s := by
  cases hv : p.toVariable? with
  | none =>
    rw [assignFrom, hv]
    exact mendsAt_of_fault hs rfl
  | some target =>
    obtain rfl := PrefixExpression.toVariable?_eq_some hv
    rw [PrefixExpression.need, PrefixExpression.Proper] at hp
    rw [PrefixExpression.writing]
    exact ((mends_assignFrom he h hp.1 hp.2).mendsAt hs).of_cons

omit he hb h hmb in
/-- A call is a statement by itself. -/
theorem mendsAt_callFrom {p : PrefixExpression} (hp : p.need ≤ n ∧ p.Proper) (hs : z.Ends s) :
    z.MendsAt (fun st l => WritesStatement n st (p.writing ++ l)) Anything [] (callFrom p) s := by
  cases hc : p.toCall? with
  | none =>
    rw [callFrom, hc]
    exact mendsAt_of_fault hs rfl
  | some call =>
    obtain rfl := PrefixExpression.toCall?_eq_some hc
    rw [PrefixExpression.need, PrefixExpression.Proper] at hp
    refine mendsAt_pure ?_ hs
    simp [WritesStatement, PrefixExpression.writing, hp]

include he h in
/-- What is no call becomes one with a string after it. -/
theorem mends_assignOrCall :
    z.Mends (WritesStatement n) Anything [.name "x", .string ""] (assignOrCall expression) := by
  have hcall : ∀ p l, (PrefixExpression.need p ≤ n ∧ p.Proper) ∧ l = p.writing →
      WritesStatement n (.call (.function p (.string ""))) (l ++ [.one (.string "")]) := by
    rintro p _ ⟨⟨pn, pp⟩, rfl⟩
    simp [WritesStatement, Call.need, Call.Proper, Call.writing, Arguments.need, Arguments.Proper,
      Arguments.writing, pn, pp]
  have htarget := mends_prefixExpression he h
  refine ⟨fun hs => (htarget.mendsAt hs).bind_of
    (fun p l t _ hl ht => ⟨[], mendsAt_symbol ?_, fun _ _ => trivial, by rintro ⟨⟩⟩)
    fun p l hl =>
      ⟨_, _, _, hcall p l hl, fits_one Terminal.spellable_string, fun _ _ => trivial⟩, ?_⟩
  · obtain ⟨hp, rfl⟩ := hl
    cases t.symbol
    case comma | equal => exact mendsAt_assignFrom he h hp ht
    all_goals exact mendsAt_callFrom hp ht
  · obtain ⟨p, l, hl, hfits⟩ := htarget.fills
    exact ⟨_, _, hcall p l hl, hfits.append (fits_one Terminal.spellable_string) fun _ _ => trivial⟩

/-- The ending can be read with `n` levels, and the stretches are its writing. -/
def WritesEnding (n : Nat) (ending : Ending) (l : List Stretch) : Prop :=
  ending.isStatement = true ∧ (ending.need ≤ n ∧ ending.Proper) ∧ l = ending.writing

include he h in
theorem mends_returnStatement :
    z.Mends (WritesEnding n) Anything [.mark .returnWord] (returnStatement expression) := by
  have hnone : WritesEnding n (.returns []) [.mark .returnWord] := by
    simp [WritesEnding, Ending.isStatement, Ending.need, Ending.Proper, Ending.writing,
      Expression.needAll, Expression.ProperAll, Expression.writings, row]
  have hvalues : z.Mends (fun ending l => WritesEnding n ending (.mark .returnWord :: l)) Anything
      [.mark .nilWord] (do pure (.returns (← expressions expression))) := by
    refine (mends_expressions he h).bind_pure ?_
    rintro values _ ⟨⟨_, vn, vp⟩, rfl⟩
    simp [WritesEnding, Ending.isStatement, Ending.need, Ending.Proper, Ending.writing, vn, vp]
  refine mends_expect_bind (by decide) ⟨fun {t} ht => mendsAt_symbol ?_, _, [], hnone, fits_nil⟩
  cases hsymbol : t.symbol
  case endWord | elseWord | elseifWord | untilWord | endOfFile | semicolon =>
    exact mendsAt_pure hnone ht
  all_goals exact (hvalues.mendsAt ht).of_cons

/-! ## Blocks -/

include he hb h hmb in
theorem mends_statementRule {y : Symbol} {rule : Reading Statement}
    (hrule : statementRule expression block y = some rule) :
    ∃ first ys, z.Mends (WritesStatement n) Anything (first :: ys) rule := by
  cases y
  case doWord =>
    cases hrule
    exact ⟨_, _, mends_doStatement hmb⟩
  case whileWord =>
    cases hrule
    exact ⟨_, _, mends_whileStatement h hmb⟩
  case repeatWord =>
    cases hrule
    exact ⟨_, _, mends_repeatStatement h hmb⟩
  case ifWord =>
    cases hrule
    exact ⟨_, _, mends_ifStatement he hb h hmb⟩
  case forWord =>
    cases hrule
    exact ⟨_, mends_forStatement he h hmb⟩
  case functionWord =>
    cases hrule
    exact ⟨_, _, mends_functionStatement hmb⟩
  case localWord =>
    cases hrule
    exact ⟨_, _, mends_localStatement he h hmb⟩
  case name | leftParen =>
    cases hrule
    exact ⟨_, _, mends_assignOrCall he h⟩
  all_goals cases hrule

/-- The statements so far and the semicolons between them and after them. -/
structure Gathers (n : Nat) (found : List Statement × Ending) (l : List Stretch) : Prop where
  falls : found.2 = .falls
  fits : ∀ st ∈ found.1, st.need ≤ n ∧ st.Proper
  spans : ∀ s u, Spans l s u → Collected n s found.1 u

/-- All statements, and the ending in front of what does not belong to it. -/
structure Gathered (n : Nat) (found : List Statement × Ending) (l : List Stretch) : Prop where
  fits : ∀ st ∈ found.1, st.need ≤ n ∧ st.Proper
  ending : found.2.need ≤ n ∧ found.2.Proper
  spans : ∀ s u, Spans l s u →
    ∃ v, Spans (.semicolons :: Statement.writingAll found.1.reverse) s v ∧
      Spans found.2.writing v u ∧ found.2.Stops u.symbol

namespace Gathers

variable {found : List Statement} {l : List Stretch}

omit he hb h hmb

theorem semicolon (hl : Gathers n (found, .falls) l) :
    Gathers n (found, .falls) (l ++ [.mark .semicolon]) := by
  refine ⟨rfl, hl.fits, fun s u hspans => ?_⟩
  obtain ⟨v, hv, _, ⟨hsemicolon, hu⟩, rfl⟩ := spans_append.1 hspans
  exact (hl.spans s v hv).semicolon hsemicolon hu

theorem statement (hl : Gathers n (found, .falls) l) {st : Statement} {w : List Stretch}
    (hst : WritesStatement n st w) :
    Gathers n (st :: found, .falls) (l ++ (w ++ [.ahead st.Stops])) := by
  obtain ⟨hfits, rfl⟩ := hst
  refine ⟨rfl, by simpa using ⟨hfits, hl.fits⟩, fun s u hspans => ?_⟩
  obtain ⟨v, hv, hspans⟩ := spans_append.1 hspans
  obtain ⟨_, hwriting, _, ⟨hstops, rfl⟩, rfl⟩ := spans_append.1 hspans
  obtain ⟨-, hplaces, hblock⟩ := reads_levels n
  obtain ⟨rule, hrule, -⟩ :=
    statementRule_complete (hplaces 0) hblock hfits.1 hfits.2 hwriting hstops
  exact (hl.spans s v hv).statement (symbol_ne_semicolon_of_rule hrule) hfits hwriting hstops

theorem ending (hl : Gathers n (found, .falls) l) {ending : Ending} {w : List Stretch}
    (hending : WritesEnding n ending w) :
    Gathered n (found, ending) (l ++ (w ++ [.ahead ending.Stops])) := by
  obtain ⟨hkind, hfits, rfl⟩ := hending
  refine ⟨hl.fits, hfits, fun s u hspans => ?_⟩
  obtain ⟨v, hv, hspans⟩ := spans_append.1 hspans
  obtain ⟨_, hwriting, _, ⟨hstops, rfl⟩, rfl⟩ := spans_append.1 hspans
  refine ⟨v, (hl.spans s v hv).spans ?_, hwriting, hstops⟩
  cases ending with
  | falls => cases hkind
  | breaks | returns =>
    rw [Ending.writing] at hwriting
    obtain ⟨_, ⟨hsymbol, -⟩, -⟩ := hwriting
    rw [show v.symbol = _ from hsymbol]
    decide

/-- A block can be over after any statement. -/
theorem falls_ahead (hl : Gathers n (found, .falls) l) :
    Gathered n (found, .falls) (l ++ [.ahead fun y => y.continuesBlock = false]) := by
  refine ⟨hl.fits, by simp [Ending.need, Ending.Proper], fun s u hspans => ?_⟩
  obtain ⟨v, hv, _, ⟨hstops, rfl⟩, rfl⟩ := spans_append.1 hspans
  refine ⟨v, (hl.spans s v hv).spans fun hsymbol => ?_, by simp [Ending.writing], hstops⟩
  rw [hsymbol] at hstops
  cases hstops

end Gathers

include he hb h hmb in
theorem mendsAt_blockStep {found : List Statement × Ending} {l : List Stretch}
    (hl : Gathers n found l) (hs : z.Ends s) :
    z.MendsAt (fun r m => if r.2 then Gathers n r.1 (l ++ m) else Gathered n r.1 (l ++ m))
      (fun y => y.endsBlock = true) [] (blockStep expression block found) s := by
  obtain ⟨found, ending⟩ := found
  obtain rfl := hl.falls
  have hstatement : ∀ {rule : Reading Statement},
      statementRule expression block s.symbol = some rule → z.MendsAt
        (fun r m => if r.2 then Gathers n r.1 (l ++ m) else Gathered n r.1 (l ++ m))
        (fun y => y.endsBlock = true) [] (do pure (((← rule) :: found, .falls), true)) s := by
    intro rule hrule
    obtain ⟨first, ys, hmends⟩ := mends_statementRule he hb h hmb hrule
    have hends : ∀ (st : Statement) (y : Symbol), y.endsBlock = true → st.Stops y :=
      fun st y hy => st.stops_of_leadsLine (Symbol.endsBlock_facts hy).1
    refine (hmends.mendsAt hs).bind_of (fun st w t hread hst ht => ?_) fun st w hst => ?_
    · refine ⟨[], mendsAt_pure_of_stays (hl.statement hst) ht
        (stays_ahead (fun _ => ?_) (hends st)), fun _ _ => trivial, nofun⟩
      exact (statementRule_sound he hb hrule hread).2.2
    · exact ⟨((st :: found, .falls), true), _, [], hl.statement hst, fits_ahead (hends st),
        fun _ _ => trivial⟩
  refine mendsAt_symbol ?_
  cases hsymbol : s.symbol
  case semicolon => exact mendsAt_consume _ hs hsymbol (by decide) (mends_pure hl.semicolon)
  case doWord | whileWord | repeatWord | ifWord | forWord | functionWord | localWord | name
    | leftParen => exact hstatement (by rw [hsymbol]; rfl)
  case returnWord =>
    refine ((mends_returnStatement he h).mendsAt hs).bind_of (fun ending w t hread hending ht => ?_)
      fun ending w hending => ?_
    · refine ⟨[], mendsAt_pure_of_stays (hl.ending hending) ht (stays_ahead (fun _ => ?_)
        fun y hy => ending.stops_of_endsBlock hy), fun _ _ => trivial, nofun⟩
      exact (returnStatement_sound he hread).2.2.1
    · exact ⟨((found, ending), false), _, [], hl.ending hending,
        fits_ahead fun y hy => ending.stops_of_endsBlock hy, fun _ _ => trivial⟩
  case breakWord =>
    have hbreaks : WritesEnding n .breaks [.mark .breakWord] := by
      simp [WritesEnding, Ending.isStatement, Ending.need, Ending.Proper, Ending.writing]
    refine mendsAt_consume [] hs hsymbol (by decide) ⟨fun ht => ?_, ((found, .breaks), false), _,
      hl.ending hbreaks, fits_ahead fun _ _ => trivial⟩
    exact mendsAt_pure_of_stays (hl.ending hbreaks) ht
      (stays_ahead (fun _ => trivial) fun _ _ => trivial)
  all_goals
    refine mendsAt_pure_of_stays hl.falls_ahead hs (stays_ahead (fun _ => ?_) ?_)
    · rw [hsymbol]
      rfl
    · exact fun y hy => (Symbol.endsBlock_facts hy).2.2.1

omit he hb h hmb in
/-- The block that all statements and the ending make. -/
theorem Gathered.whole {found : List Statement} {ending : Ending} {l m : List Stretch}
    (hl : Gathered n (found, ending) l) (hm : ∀ s t, Spans m s t →
      Spans (if ending.isStatement then [.lastSemicolon] else []) s t) :
    ((Block.mk found.reverse ending).need ≤ n + 1 ∧ (Block.mk found.reverse ending).Proper) ∧
      ∀ s t, Spans (l ++ m) s t → Spans (Block.mk found.reverse ending).writing s t := by
  have hfits : Statement.needAll found.reverse ≤ n ∧ Statement.ProperAll found.reverse := by
    rw [Statement.needAll_le, Statement.properAll_iff]
    simpa [forall_and] using hl.fits
  obtain ⟨en, ep⟩ := hl.ending
  rw [Block.need, Block.Proper, Block.writing, ← List.cons_append]
  refine ⟨⟨by simp only at en; omega, hfits.2, ep⟩, fun s t hspans => ?_⟩
  obtain ⟨u, hu, hrest⟩ := spans_append.1 hspans
  obtain ⟨v, hfront, hending, hstops⟩ := hl.spans s u hu
  exact spans_append.2 ⟨v, hfront, spans_append.2 ⟨u, hending, u, ⟨hstops, rfl⟩, hm u t hrest⟩⟩

include he hb h hmb in
theorem mends_blockWith : z.MendsBlock (n + 1) (blockWith expression block) := by
  have hstart : Gathers n ([], .falls) [] :=
    ⟨rfl, by simp, by rintro s _ rfl; exact ⟨by simp, s, rfl, .refl⟩⟩
  have hloop : z.Mends (fun found l => Gathered n found l) (fun y => y.endsBlock = true) []
      (loop (blockStep expression block) ([], .falls)) := by
    refine mends_loop (I := Gathers n) (M := Gathered n) (progresses_blockStep he hb)
      (fun hl hs => mendsAt_blockStep he hb h hmb hl hs) (fun {found l} hl => ?_) (fun _ hy => hy)
      (fun _ hy => hy) hstart
    obtain ⟨found, ending⟩ := found
    obtain rfl := hl.falls
    exact ⟨_, _, hl.falls_ahead, fits_ahead fun y hy => (Symbol.endsBlock_facts hy).2.2.1⟩
  have hspans : z.Mends (fun b l => (Block.need b ≤ n + 1 ∧ b.Proper) ∧
      ∀ s t, Spans l s t → Spans b.writing s t) (fun y => y.endsBlock = true) []
      (blockWith expression block) := by
    refine hloop.bind (fun found l hl => ?_) fun _ hy => hy
    obtain ⟨found, ending⟩ := found
    dsimp only
    split
    · next hkind =>
      have hnone := hl.whole (m := [.ahead (· ≠ .semicolon)]) <| by
        rintro s _ ⟨_, ⟨hne, rfl⟩, rfl⟩
        rw [if_pos hkind]
        exact ⟨s, .inr ⟨hne, rfl⟩, rfl⟩
      have hone := hl.whole (m := [.mark .semicolon]) <| by
        rintro s _ ⟨t, hst, rfl⟩
        rw [if_pos hkind]
        exact ⟨t, .inl hst, rfl⟩
      have hends : ∀ y : Symbol, y.endsBlock = true → y ≠ .semicolon :=
        fun y hy => (Symbol.endsBlock_facts hy).2.1
      refine ⟨fun {t} ht => ?_, _, _, hnone, fits_ahead hends⟩
      refine mendsAt_tryConsume (by decide) ht (mends_pure hone) fun hne => ?_
      exact mendsAt_pure_of_stays hnone ht (stays_ahead (fun _ => hne) hends)
    · next hkind =>
      refine mends_pure (hl.whole (m := []) ?_)
      rintro s _ rfl
      rw [if_neg hkind]
      rfl
  exact hspans.mono fun b l ⟨hfits, hl⟩ => ⟨_, ⟨hfits, rfl⟩, hl⟩

end Statements

/-! ## Levels -/

/-- The block without statements, in front of what ends a block. -/
theorem fits_emptyBlock :
    Fits [] (fun y => y.endsBlock = true) (Block.mk [] .falls).writing := by
  have hstops : ∀ y : Symbol, y.endsBlock = true → y.continuesBlock = false :=
    fun y hy => (Symbol.endsBlock_facts hy).2.2.1
  refine (fits_ahead hstops).mono ?_
  rintro s _ ⟨_, ⟨hstops, rfl⟩, rfl⟩
  rw [Block.writing, Statement.writingAll, Ending.writing]
  refine ⟨s, ⟨.refl, fun hsymbol => ?_⟩, s, ⟨hstops, rfl⟩, rfl⟩
  rw [hsymbol] at hstops
  cases hstops

/-- With any number of levels, what the grammar reads is mended with one level more. -/
theorem mends_levels (z : Brink) (n : Nat) :
    z.MendsOperand (n + 1) (operand n) ∧
      (∀ power, z.MendsExpression (n + 1) power (Grammar.place (operand n) (climb n) power)) ∧
      z.MendsBlock (n + 1) (Grammar.block n) := by
  induction n with
  | zero =>
    -- Without a level left every reading fails where it starts.
    refine ⟨?_, fun power => ?_, ?_⟩
    · rw [operand_zero]
      refine ⟨fun hs => mendsAt_of_fault hs rfl, .nil, _, ⟨trivial, ?_, rfl⟩, ?_⟩
      · simp [Expression.need, Expression.Proper]
      · rw [Expression.writing]
        exact fits_one (Terminal.spellable_mark (by decide))
    · rw [operand_zero]
      refine ⟨fun hs => mendsAt_of_fault hs rfl, .nil, _, ⟨?_, rfl⟩, ?_⟩
      · simp [Expression.need, Expression.Proper]
      · rw [Expression.writing]
        exact fits_one (Terminal.spellable_mark (by decide))
    · rw [block_zero]
      refine ⟨fun hs => mendsAt_of_fault hs rfl, .mk [] .falls, _, ⟨?_, rfl⟩, fits_emptyBlock⟩
      simp [Block.need, Block.Proper, Statement.needAll, Statement.ProperAll, Ending.need,
        Ending.Proper]
  | succ n ih =>
    obtain ⟨-, hplaces, hblock⟩ := ih
    obtain ⟨-, hreads, hreadsBlock⟩ := reads_levels n
    have hoperand : z.MendsOperand (n + 1 + 1) (operand (n + 1)) := by
      rw [operand_succ]
      exact mends_operandWith (hreads 0) (hplaces 0) (hplaces UnaryOp.power) hblock
    refine ⟨hoperand, fun power => ?_, ?_⟩
    · rw [climb_succ]
      exact mends_placeWith (reads_levels (n + 1)).1 hreads hoperand hplaces power
    · rw [block_succ]
      exact mends_blockWith (hreads 0) hreadsBlock (hplaces 0) hblock

/-- If a chunk cannot be read because the source has ended, tokens can be put there with which it
can be read, unless the source refuses to go on. It may take one level more. -/
theorem chunk_mended {e : SyntaxError} {u : TokenStream} (hs : z.Ends s)
    (h : chunk n s = .error e u) (hp : e.place = z.place) :
    z.Refuses (chunk n) s ∨ ∃ b ys, (∀ terminal ∈ ys, terminal.Spellable) ∧
      ∀ (ts : List Token) (last : Token), Terminal.MatchesAll ys ts → last.symbol = .endOfFile →
        ∃ t, chunk (n + 1) (s.onto (ts ++ [last])) = .ok b t := by
  obtain ⟨-, -, hblock⟩ := mends_levels z n
  have hdone : ∀ {b : Block} {l : List Stretch} {ys : List Terminal},
      ((b.need ≤ n + 1 ∧ b.Proper) ∧ l = b.writing) → Filled ys (fun y => y.endsBlock = true) l s →
      ∃ b ys, (∀ terminal ∈ ys, terminal.Spellable) ∧
        ∀ (ts : List Token) (last : Token), Terminal.MatchesAll ys ts → last.symbol = .endOfFile →
          ∃ t, chunk (n + 1) (s.onto (ts ++ [last])) = .ok b t := by
    rintro b _ ys ⟨hfits, rfl⟩ hfilled
    refine ⟨b, ys, hfilled.1, fun ts last hts hlast => ?_⟩
    obtain ⟨t, hspans, ht⟩ := hfilled.2 ts [last] hts ⟨last, [], rfl, by rw [hlast]; rfl⟩
    refine ⟨t, chunk_eq_ok.2 ⟨hfits, hspans, ?_⟩⟩
    rw [TokenStream.symbol, ht.1, hlast]
  by_cases hend : s.symbol = .endOfFile
  · obtain ⟨b, l, hb, hl⟩ := hblock.fills
    exact .inr (hdone hb
      ((stays_nil (F := fun y => y.endsBlock = true)).fill hend hl fun _ hy => hy))
  rcases bind_eq_error.1 h with hfails | ⟨b, t, hread, hfails⟩
  · rcases (hblock.mendsAt hs).fails hend hfails hp with ⟨hlast, hrefuses⟩ | ⟨b, l, ys, hb, hl⟩
    · refine .inl ⟨hlast, fun t ht => ?_⟩
      obtain ⟨f, v, hv⟩ := hrefuses t ht
      exact ⟨f, v, bind_eq_error.2 (.inl hv)⟩
    · exact .inr (hdone hb hl)
  · -- What follows the block is not at the end of the file, or it would be a chunk.
    obtain ⟨ht, -⟩ := (hblock.mendsAt hs).reads hread
    have hne : t.symbol ≠ .endOfFile := by
      intro htend
      have hexpect : expect .endOfFile t = .ok () t := expect_endOfFile_eq_ok.2 ⟨htend, rfl⟩
      rw [bind_of_ok hexpect] at hfails
      cases hfails
    have hfault : expect .endOfFile t = .error (t.fault (.expected .endOfFile t.near)) t := by
      rw [expect, bind_eq_error, expectLexeme, if_neg hne]
      exact .inl rfl
    have herror := hfails.symm.trans (bind_eq_error.2 (.inl hfault))
    cases herror
    exact absurd (ht.symbol_eq hp) hne

end LuaLang.Brink
