import Mathlib
import LuaLang.Proofs.Grammar.Completion
import LuaLang.Proofs.Printing.Statements

/-!
# Expressions that the source ended in

Each rule for expressions is mended if the readings that it is given are. Where a rule chooses by
the symbol it stands at, what completes it is a choice of its own for each symbol, and for the end
of the source one more, the shortest tree that there is.

## Main statements

* `mends_table`, `mends_arguments`, `mends_prefixExpression`, `mends_operandWith`: the rules.
* `mends_placeWith`: expressions in a place of any power.
-/

namespace LuaLang.Brink

open Reading TokenStream Grammar

variable {α : Type} {z : Brink} {n : Nat} {s : TokenStream}

/-- What may follow where nothing is looked ahead at. -/
abbrev Anything : Symbol → Prop := fun _ => True

/-! ## Rows -/

section Rows

variable {mark : Symbol} {item : Reading α} {P : α → Prop} {w : α → List Stretch}
  {F : Symbol → Prop} {ys : List Terminal}

/-- One more item after a mark, if there is a mark. -/
theorem mendsAt_oneMore (hm : mark ≠ .endOfFile)
    (h : z.Mends (fun a l => P a ∧ l = w a) F ys item) {items : List α}
    {R : List α × Bool → List Stretch → Prop} (hs : z.Ends s) (hdone : R (items, false) [])
    (hmore : ∀ a, P a → R (a :: items, true) (.mark mark :: w a)) :
    z.MendsAt R F [] (oneMore mark item items) s := by
  have hitem : z.Mends (fun r m => R r (.mark mark :: m)) F (ys ++ [])
      (do pure ((← item) :: items, true)) := by
    refine h.bind (fun a l ⟨ha, hl⟩ => mends_pure ?_) fun _ hy => hy
    subst hl
    simpa using hmore a ha
  exact mendsAt_tryConsume hm hs hitem fun _ => mendsAt_pure hdone hs

/-- The items that were found after some others, each after a mark. -/
def After (mark : Symbol) (P : α → Prop) (w : α → List Stretch) (found items : List α)
    (l : List Stretch) : Prop :=
  ∃ more : List α, items = more.reverse ++ found ∧ (∀ a ∈ more, P a) ∧
    l = more.flatMap fun a => .mark mark :: w a

/-- The loop over the items after the first ones. -/
theorem mends_loop_oneMore (hm : mark ≠ .endOfFile) (hitem : Progresses (oneMore mark item))
    (h : z.Mends (fun a l => P a ∧ l = w a) F ys item) (found : List α) :
    z.Mends (After mark P w found) F [] (loop (oneMore mark item) found) := by
  have hround : ∀ {items l s}, After mark P w found items l → z.Ends s →
      z.MendsAt (fun r m => if r.2 then After mark P w found r.1 (l ++ m)
        else After mark P w found r.1 (l ++ m)) F [] (oneMore mark item items) s := by
    rintro _ _ s ⟨more, rfl, hall, rfl⟩ hs
    refine mendsAt_oneMore hm h hs ⟨more, rfl, hall, by simp⟩ fun a ha => ?_
    refine ⟨more ++ [a], by simp, ?_, by simp⟩
    simpa [or_imp, forall_and] using ⟨hall, ha⟩
  have hstart : After mark P w found found [] := ⟨[], rfl, by simp, rfl⟩
  exact mends_loop hitem hround (fun {a l} hI => ⟨a, [], by simpa using hI, fits_nil⟩)
    (fun _ hy => hy) (fun _ hy => hy) hstart

theorem mends_separated (hm : mark ≠ .endOfFile) (hitem : Progresses (oneMore mark item))
    (h : z.Mends (fun a l => P a ∧ l = w a) Anything ys item) :
    z.Mends (fun all l => (all ≠ [] ∧ ∀ a ∈ all, P a) ∧ l = row (.mark mark) (all.map w))
      Anything ys (separated mark item) := by
  have hall : z.Mends (fun all l => (all ≠ [] ∧ ∀ a ∈ all, P a) ∧ l = row (.mark mark) (all.map w))
      Anything (ys ++ ([] ++ [])) (separated mark item) := by
    refine h.bind (fun first l ⟨hfirst, hl⟩ => ?_) fun _ _ => trivial
    refine (mends_loop_oneMore hm hitem h [first]).bind ?_ fun _ _ => trivial
    rintro _ _ ⟨more, rfl, hmore, rfl⟩
    subst hl
    refine mends_pure ⟨⟨by simp, by simpa using ⟨hfirst, hmore⟩⟩, ?_⟩
    simp [row, List.flatMap_map]
  simpa using hall

theorem mends_nameRow (hm : mark ≠ .endOfFile) :
    z.Mends (fun all l => all ≠ [] ∧ l = nameRow mark all) Anything [.name "x"]
      (separated mark (expectLexeme .name)) := by
  have hname : z.Mends (fun text l => True ∧ l = [.name text]) Anything [.name "x"]
      (expectLexeme .name) := by
    simpa using mends_name
  simpa [nameRow] using mends_separated hm (progresses_names hm) hname

end Rows

theorem mends_functionName :
    z.Mends (fun name l => name.path ≠ [] ∧ l = name.writing) Anything [.name "x"]
      functionName := by
  refine (mends_nameRow (by decide)).bind (fun path l ⟨hne, hl⟩ => ?_) fun _ _ => trivial
  subst hl
  have hmethod : z.Mends (fun name m => FunctionName.path name ≠ [] ∧
      nameRow .dot path ++ .mark .colon :: m = name.writing) Anything [.name "x"]
      (do pure ⟨path, some (← expectLexeme .name)⟩) := by
    refine mends_name.bind (fun text l hl => mends_pure ?_) fun _ _ => trivial
    subst hl
    exact ⟨hne, by simp [FunctionName.writing]⟩
  exact mends_tryConsume (by decide) hmethod (mends_pure ⟨hne, by simp [FunctionName.writing]⟩)

/-! ## Parameters -/

/-- The names so far, each followed by a comma. -/
def commaRow (names : List String) : List Stretch :=
  names.flatMap fun text => [.name text, .mark .comma]

theorem parameterRow_snoc (names : List String) (text : String) :
    parameterRow (names ++ [text]) false = commaRow names ++ [.name text] := by
  simp [parameterRow, row_concat, commaRow, List.flatMap_map]

theorem parameterRow_varargs (names : List String) :
    parameterRow names true = commaRow names ++ [.mark .dotDotDot] := by
  simp [parameterRow, row_concat, commaRow, List.flatMap_map]

theorem mends_parameters :
    z.Mends (fun (found : List String × Bool) l => l = parameterRow found.1 found.2) Anything []
      parameters := by
  let I (found : List String × Bool) (l : List Stretch) : Prop := l = commaRow found.1.reverse
  let M (found : List String × Bool) (l : List Stretch) : Prop :=
    l = parameterRow found.1.reverse found.2
  have hround : ∀ {found l s}, I found l → z.Ends s →
      z.MendsAt (fun r m => if r.2 then I r.1 (l ++ m) else M r.1 (l ++ m)) Anything [.name "x"]
        (parameterStep found) s := by
    rintro ⟨names, varargs⟩ _ s rfl hs
    refine mendsAt_symbol ?_
    cases hsymbol : s.symbol
    case dotDotDot =>
      exact mendsAt_consume _ hs hsymbol (by decide)
        (mends_pure (by simp [M, parameterRow_varargs]))
    case name =>
      refine mendsAt_consumeLexeme [] (.name s.current.lexeme) hs ⟨hsymbol, rfl⟩
        (by rintro ⟨⟩) ?_
      refine mends_tryConsume (by decide) (mends_pure ?_) (mends_pure ?_)
      · simp [I, commaRow, Stretch.name]
      · simp [M, parameterRow_snoc, Stretch.name]
    all_goals exact mendsAt_of_fault hs rfl
  have hstop : ∀ {found l}, I found l → ∃ b m, M b (l ++ m) ∧ Fits [.name "x"] Anything m := by
    rintro ⟨names, varargs⟩ _ rfl
    refine ⟨("x" :: names, false), _, ?_, fits_one Terminal.spellable_name⟩
    simp [M, parameterRow_snoc, Stretch.name]
  have hstart : I ([], false) [] := rfl
  have hloop : z.Mends (fun found l => M found l) Anything [.name "x"]
      (loop parameterStep ([], false)) :=
    mends_loop (I := I) (M := M) progresses_parameterStep hround hstop (fun _ _ => trivial)
      (fun _ _ => trivial) hstart
  refine ⟨fun {s} hs => mendsAt_symbol ?_, ([], false), [], rfl, fits_nil⟩
  split
  · exact mendsAt_pure rfl hs
  · refine MendsAt.of_cons (?_ : z.MendsAt _ _ [.name "x"] _ s)
    refine (hloop.bind ?_ fun _ _ => trivial).mendsAt hs
    intro found l hl
    exact mends_pure (by simpa using hl)

/-! ## Tables -/

/-- A reading of expressions that is mended with a tree for `n` levels. -/
def MendsExpression (z : Brink) (n power : Nat) (x : Reading Expression) : Prop :=
  z.Mends (fun e l => (e.need ≤ n ∧ e.Proper power) ∧ l = e.writing) Anything [.mark .nilWord] x

/-- A reading of blocks that is mended with a tree for `n` levels. -/
def MendsBlock (z : Brink) (n : Nat) (x : Reading Block) : Prop :=
  z.Mends (fun b l => (b.need ≤ n ∧ b.Proper) ∧ l = b.writing) (fun y => y.endsBlock = true) [] x

/-- An equals sign, and nothing that may come after it. -/
theorem mendsAt_refused {L : α → List Stretch → Prop} {F : Symbol → Prop} {ys : List Terminal}
    (hs : z.Ends s) (hsymbol : s.symbol = .equal) :
    z.MendsAt L F ys (consume >>= fun _ => unexpected) s := by
  have hfails : ∀ t : TokenStream, ∃ e u, (consume >>= fun _ => unexpected : Reading α) t =
      .error e u := by
    intro t
    cases h : consume t with
    | ok _ u => exact ⟨_, _, bind_of_ok h⟩
    | error e u => exact ⟨e, u, bind_eq_error.2 (.inl h)⟩
  have hne : s.symbol ≠ .endOfFile := by simp [hsymbol]
  obtain ⟨e, u, he⟩ := hfails s
  obtain ⟨t, hst, ht, hlast, -⟩ := hs.next hne
  refine ⟨?_, ?_, fun hend => absurd hend hne, fun _ f v hf hp => ?_⟩
  · rw [he]
    exact nofun
  · rw [he]
    exact nofun
  · rw [bind_of_ok hst.2] at hf
    cases hf
    refine .inl ⟨?_, fun t _ => hfails t⟩
    rw [← hlast (ht.symbol_eq hp)]
    exact hsymbol

section Expressions

variable {m : Nat} {expression : Reading Expression} (he : ReadsExpression m 0 expression)
  (h : z.MendsExpression n 0 expression)
include h

include he in
theorem mends_expressions :
    z.Mends (fun values l => (values ≠ [] ∧ Expression.needAll values ≤ n ∧
        Expression.ProperAll values) ∧ l = row (.mark .comma) (Expression.writings values))
      Anything [.mark .nilWord] (expressions expression) := by
  have hprogress : Progresses (oneMore .comma expression) :=
    progresses_oneMore (by decide) he fun h => h.2.1.size_le
  simpa only [expressions, Expression.writings_eq_map, Expression.needAll_le,
    Expression.properAll_iff, forall_and] using mends_separated (by decide) hprogress h

theorem mends_field :
    z.Mends (fun f l => (Field.need f ≤ n ∧ f.Proper) ∧ l = f.writing) Anything [.mark .nilWord]
      (field expression) := by
  have hkeyed : z.Mends (fun f l => (Field.need f ≤ n ∧ f.Proper) ∧
      .mark .leftBracket :: l = f.writing) Anything
      [.mark .nilWord, .mark .rightBracket, .mark .equal, .mark .nilWord] (do
        let key ← expression
        expect .rightBracket
        expect .equal
        pure (.keyed key (← expression))) := by
    refine h.bind ?_ fun _ _ => trivial
    rintro key _ ⟨⟨kn, kp⟩, rfl⟩
    refine mends_expect_bind (by decide) (mends_expect_bind (by decide) (h.bind_pure ?_))
    rintro value _ ⟨⟨vn, vp⟩, rfl⟩
    simp [Field.need, Field.Proper, Field.writing, kn, kp, vn, vp]
  refine mends_tryConsume (by decide) hkeyed (h.bind ?_ fun _ _ => trivial)
  rintro value _ ⟨⟨vn, vp⟩, rfl⟩
  have hitem : (Field.need (.item value) ≤ n ∧ (Field.item value).Proper) ∧
      value.writing ++ [] = (Field.item value).writing := by
    simp [Field.need, Field.Proper, Field.writing, vn, vp]
  refine ⟨fun {t} ht => mendsAt_symbol ?_, .item value, [], hitem, fits_nil⟩
  split
  · next hequal =>
    cases htext : value.name? with
    | none => exact mendsAt_refused ht hequal
    | some text =>
      obtain rfl := Expression.name?_eq_some htext
      refine mendsAt_consume _ ht hequal (by decide) (h.bind_pure ?_)
      rintro value _ ⟨⟨wn, wp⟩, rfl⟩
      simp [Field.need, Field.Proper, Field.writing, Expression.writing,
        PrefixExpression.writing, Variable.writing, wn, wp]
  · exact mendsAt_pure hitem ht

omit h in
/-- The last entry of a table may be followed by a separator or not. -/
theorem spans_entries {before : List Field} {f : Field} {s t u : TokenStream}
    (h : Spans ((before.flatMap fun f => f.writing ++ [.separator]) ++ f.writing) s t)
    (ht : Stretch.trailing.Passes t u) :
    Spans (row .separator ((before ++ [f]).map Field.writing) ++ [.trailing]) s u := by
  rw [List.map_append, List.map_cons, List.map_nil, row_concat, List.flatMap_map]
  exact spans_append.2 ⟨t, h, u, ht, rfl⟩

/-- The entries so far, each followed by a separator. -/
def Separated (n : Nat) (entries : List Field) (l : List Stretch) : Prop :=
  (∀ f ∈ entries, f.need ≤ n ∧ f.Proper) ∧
    l = entries.reverse.flatMap fun f => f.writing ++ [.separator]

/-- All entries, in front of the closing brace. -/
def Entered (n : Nat) (entries : List Field) (l : List Stretch) : Prop :=
  (∀ f ∈ entries, f.need ≤ n ∧ f.Proper) ∧ ∀ s t, Spans l s t →
    Spans (row .separator (entries.reverse.map Field.writing) ++
      if entries = [] then [] else [.trailing]) s t

omit h in
theorem Separated.entered {entries : List Field} {l : List Stretch} (h : Separated n entries l) :
    Entered n entries (l ++ [.ahead (· = .rightBrace)]) := by
  obtain ⟨hall, rfl⟩ := h
  refine ⟨hall, fun s t h => ?_⟩
  obtain ⟨_, hspans, _, ⟨hbrace, rfl⟩, rfl⟩ := spans_append.1 h
  cases entries with
  | nil => simpa [row] using hspans
  | cons f before =>
    rw [List.reverse_cons, List.flatMap_append, List.flatMap_singleton,
      ← List.append_assoc] at hspans
    obtain ⟨u, hfront, _, hsep, rfl⟩ := spans_append.1 hspans
    rw [List.reverse_cons, if_neg (by simp)]
    exact spans_entries hfront ⟨hbrace, .inr hsep⟩

omit h in
theorem Separated.entered_cons {entries : List Field} {l : List Stretch} (h : Separated n entries l)
    {f : Field} (hf : f.need ≤ n ∧ f.Proper) :
    Entered n (f :: entries) (l ++ (f.writing ++ [.ahead (· = .rightBrace)])) := by
  obtain ⟨hall, rfl⟩ := h
  refine ⟨by simpa using ⟨hf, hall⟩, fun s t h => ?_⟩
  rw [← List.append_assoc] at h
  obtain ⟨_, hspans, _, ⟨hbrace, rfl⟩, rfl⟩ := spans_append.1 h
  rw [List.reverse_cons, if_neg (by simp)]
  exact spans_entries hspans ⟨hbrace, .inl rfl⟩

theorem mendsAt_fieldStep {entries : List Field} {l : List Stretch} (hl : Separated n entries l)
    (hs : z.Ends s) :
    z.MendsAt (fun r m => if r.2 then Separated n r.1 (l ++ m) else Entered n r.1 (l ++ m))
      (· = .rightBrace) [] (fieldStep expression entries) s := by
  refine mendsAt_symbol ?_
  split
  · next hbrace =>
    exact mendsAt_pure_of_stays (l := [.ahead (· = .rightBrace)]) hl.entered hs
      (stays_ahead (fun _ => hbrace) fun _ hy => hy)
  · refine MendsAt.of_cons (?_ : z.MendsAt _ _ [.mark .nilWord] _ s)
    refine ((mends_field h).bind ?_ fun _ _ => trivial).mendsAt hs
    rintro f _ ⟨hf, rfl⟩
    refine ⟨fun {t} ht => mendsAt_symbol ?_, (f :: entries, false), [.ahead (· = .rightBrace)],
      hl.entered_cons hf, fits_ahead fun _ hy => hy⟩
    have hmore : t.symbol = .comma ∨ t.symbol = .semicolon → z.MendsAt
        (fun r m => if r.2 then Separated n r.1 (l ++ (f.writing ++ m))
          else Entered n r.1 (l ++ (f.writing ++ m))) (· = .rightBrace) []
        (do consume; pure (f :: entries, true)) t := by
      intro hsep
      refine mendsAt_of_next .separator ht (by rcases hsep with h | h <;> simp [h])
        (fun u v hu _ huv => ⟨?_, huv⟩) (fun u hu => bind_of_ok hu.2)
        (moreSource.agrees_consume.bind fun _ => moreSource.agrees_pure _).alike ?_
      · rwa [TokenStream.symbol, hu]
      · obtain ⟨hall, rfl⟩ := hl
        exact ⟨by simpa using ⟨hf, hall⟩, by simp⟩
    cases hsymbol : t.symbol
    case comma => exact hmore (.inl hsymbol)
    case semicolon => exact hmore (.inr hsymbol)
    case rightBrace =>
      exact mendsAt_pure_of_stays (l := [.ahead (· = .rightBrace)]) (hl.entered_cons hf) ht
        (stays_ahead (fun _ => hsymbol) fun _ hy => hy)
    all_goals exact mendsAt_of_fault ht rfl

include he in
theorem mends_table :
    z.Mends (fun all l => (Field.needAll all ≤ n ∧ Field.ProperAll all) ∧
        l = braced (Field.writings all))
      Anything [.mark .leftBrace, .mark .rightBrace] (table expression) := by
  have hstart : Separated n [] [] := ⟨by simp, rfl⟩
  have hloop : z.Mends (fun entries l => Entered n entries l) (· = .rightBrace) []
      (loop (fieldStep expression) []) :=
    mends_loop (I := Separated n) (M := Entered n) (progresses_fieldStep he)
      (fun hl hs => mendsAt_fieldStep h hl hs)
      (fun hl => ⟨_, _, hl.entered, fits_ahead fun _ hy => hy⟩) (fun _ hy => hy) (fun _ hy => hy)
      hstart
  have hfields : z.Mends (fun all l => (∀ f ∈ all, f.need ≤ n ∧ f.Proper) ∧
      l = row .separator (all.map Field.writing) ++ if all = [] then [] else [.trailing])
      (· = .rightBrace) [] (fields expression) := by
    have hreverse : z.Mends (fun all l => Entered n all.reverse l) (· = .rightBrace) []
        (fields expression) := hloop.bind_pure fun entries l hl => by simpa using hl
    refine hreverse.mono fun all l ⟨hall, hspans⟩ => ⟨_, ⟨by simpa using hall, rfl⟩, ?_⟩
    simpa using hspans
  refine mends_expect_bind (by decide) (hfields.bind (fun all l ⟨hall, hl⟩ => ?_) ?_)
  · subst hl
    refine mends_expect_bind (by decide) (mends_pure ⟨?_, ?_⟩)
    · simpa only [Field.needAll_le, Field.properAll_iff, forall_and] using hall
    · simp [braced, Field.writings_eq_map]
  · rintro _ rfl
    rfl

/-! ## Prefix expressions -/

omit h in
/-- What comes after an opening parenthesis that has to be on the line that the callee ends on. -/
theorem mendsAt_callGuard {k : Reading α} {L : α → List Stretch → Prop} {F : Symbol → Prop}
    {ys : List Terminal} (zs : List Terminal) (hs : z.Ends s) (hsymbol : s.symbol = .leftParen)
    (hk : z.Mends (fun b m => L b (.callParen :: m)) F zs k) :
    z.MendsAt L F ys (callGuard >>= fun _ => (consume >>= fun _ => k)) s := by
  by_cases hline : s.current.line = s.last.endLine
  · have hguard : ∀ {t : TokenStream}, t.current.line = t.last.endLine → callGuard t = .ok () t :=
      fun ht => by rw [callGuard_eq, if_pos ht]
    have hconsume : z.MendsAt L F ys (consume >>= fun _ => k) s :=
      mendsAt_next_bind .callParen hs (by simp [hsymbol])
        (fun u v hu hl huv => ⟨by rwa [TokenStream.symbol, hu], by rwa [hu, hl], huv⟩)
        (fun _ hst => hst.2) moreSource.agrees_consume.alike hk
    refine hconsume.congr (bind_of_ok (hguard hline)) fun hs' => bind_of_ok (hguard ?_)
    rwa [← hs'.current_eq, ← hs'.last_eq]
  · have hfault : callGuard s = .error (s.fault (.ambiguousCall s.near)) s := by
      rw [callGuard_eq, if_neg hline]
    exact mendsAt_of_fault hs (bind_eq_error.2 (.inl hfault))

include he in
theorem mends_arguments :
    z.Mends (fun a l => (Arguments.need a ≤ n ∧ a.Proper) ∧ l = a.writing) Anything [.string ""]
      (arguments expression) := by
  have hclose : ∀ values, Expression.needAll values ≤ n → Expression.ProperAll values →
      z.Mends (fun a l => (Arguments.need a ≤ n ∧ a.Proper) ∧
        .callParen :: (row (.mark .comma) (Expression.writings values) ++ l) = a.writing)
        Anything [.mark .rightParen] (do expect .rightParen; pure (.list values)) := by
    intro values vn vp
    refine mends_expect_bind (by decide) (mends_pure ?_)
    simp [Arguments.need, Arguments.Proper, Arguments.writing, vn, vp]
  have hnone := hclose [] (by simp [Expression.needAll]) (by simp [Expression.ProperAll])
  simp only [Expression.writings, row, List.nil_append] at hnone
  have hsome : z.Mends (fun a l => (Arguments.need a ≤ n ∧ a.Proper) ∧
      .callParen :: l = a.writing) Anything [.mark .nilWord, .mark .rightParen] (do
        let values ← expressions expression
        expect .rightParen
        pure (.list values)) := by
    refine (mends_expressions he h).bind ?_ fun _ _ => trivial
    rintro values _ ⟨⟨_, vn, vp⟩, rfl⟩
    exact hclose values vn vp
  refine ⟨fun {s} hs => mendsAt_symbol ?_, .string "", [.one (.string "")], ?_,
    fits_one Terminal.spellable_string⟩
  · cases hsymbol : s.symbol
    case leftParen =>
      dsimp only
      refine mendsAt_callGuard [.mark .rightParen] hs hsymbol ?_
      refine ⟨fun {t} ht => mendsAt_symbol ?_, hnone.fills⟩
      split
      · exact hnone.mendsAt ht
      · exact (hsome.mendsAt ht).of_cons
    case leftBrace =>
      have htable : z.Mends (fun a l => (Arguments.need a ≤ n ∧ a.Proper) ∧ l = a.writing) Anything
          _ (do pure (.table (← table expression))) :=
        (mends_table he h).bind_pure fun all l hl => by
          simpa only [Arguments.need, Arguments.Proper, Arguments.writing] using hl
      exact (htable.mendsAt hs).of_cons
    case string =>
      refine mendsAt_consumeLexeme _ (.string s.current.lexeme) hs ⟨hsymbol, rfl⟩
        (by rintro ⟨⟩) (mends_pure ?_)
      simp [Arguments.need, Arguments.Proper, Arguments.writing]
    all_goals exact mendsAt_of_fault hs rfl
  · simp [Arguments.need, Arguments.Proper, Arguments.writing]

omit h in
theorem mends_functionBody {block : Reading Block} (hb : z.MendsBlock n block) :
    z.Mends (fun body l => (FunctionBody.need body ≤ n ∧ body.Proper) ∧ l = body.writing) Anything
      [.mark .leftParen, .mark .rightParen, .mark .endWord] (functionBody block) := by
  refine mends_expect_bind (by decide) (mends_parameters.bind (fun found l hl => ?_)
    fun _ _ => trivial)
  subst hl
  refine mends_expect_bind (by decide) (hb.bind (fun body l ⟨⟨bn, bp⟩, hl⟩ => ?_) ?_)
  · subst hl
    refine mends_expect_bind (by decide) (mends_pure ?_)
    simp [FunctionBody.need, FunctionBody.Proper, FunctionBody.writing, bn, bp]
  · rintro _ rfl
    rfl

theorem mends_primary :
    z.Mends (fun p l => (PrefixExpression.need p ≤ n ∧ p.Proper) ∧ l = p.writing) Anything
      [.name "x"] (primary expression) := by
  have hname : ∀ text, (PrefixExpression.need (.var (.name text)) ≤ n ∧
      (PrefixExpression.var (.name text)).Proper) ∧
      [.name text] = (PrefixExpression.var (.name text)).writing := by
    simp [PrefixExpression.need, Variable.need, PrefixExpression.Proper, Variable.Proper,
      PrefixExpression.writing, Variable.writing]
  refine ⟨fun {s} hs => mendsAt_symbol ?_, _, _, hname "x", fits_one Terminal.spellable_name⟩
  cases hsymbol : s.symbol
  case name =>
    exact mendsAt_consumeLexeme _ (.name s.current.lexeme) hs ⟨hsymbol, rfl⟩ (by rintro ⟨⟩)
      (mends_pure (hname s.current.lexeme))
  case leftParen =>
    refine mendsAt_consume [.mark .nilWord, .mark .rightParen] hs hsymbol (by decide) ?_
    refine h.bind ?_ fun _ _ => trivial
    rintro value _ ⟨⟨vn, vp⟩, rfl⟩
    refine mends_expect_bind (by decide) (mends_pure ?_)
    simp [PrefixExpression.need, PrefixExpression.Proper, PrefixExpression.writing, vn, vp]
  all_goals exact mendsAt_of_fault hs rfl

include he in
theorem mendsAt_suffix {object : PrefixExpression} (hs : z.Ends s)
    {R : PrefixExpression × Bool → List Stretch → Prop} (hdone : R (object, false) [])
    (hmore : ∀ p ext, Extends object p ext →
      (object.need ≤ n ∧ object.Proper → p.need ≤ n ∧ p.Proper) → R (p, true) ext) :
    z.MendsAt R Anything [] (suffix expression object) s := by
  have hcall : z.Mends R Anything [.string ""]
      (do pure (.call (.function object (← arguments expression)), true)) := by
    refine (mends_arguments he h).bind_pure ?_
    rintro a _ ⟨⟨an, ap⟩, rfl⟩
    refine hmore _ _ (.call a) ?_
    rintro ⟨hneed, hproper⟩
    simp only [PrefixExpression.need, Call.need, PrefixExpression.Proper, Call.Proper]
    exact ⟨by omega, hproper, ap⟩
  refine mendsAt_symbol ?_
  cases hsymbol : s.symbol
  case leftBracket =>
    refine mendsAt_consume [.mark .nilWord, .mark .rightBracket] hs hsymbol (by decide) ?_
    refine h.bind ?_ fun _ _ => trivial
    rintro key _ ⟨⟨kn, kp⟩, rfl⟩
    refine mends_expect_bind (by decide) (mends_pure (hmore _ _ (.index key) ?_))
    rintro ⟨hneed, hproper⟩
    simp only [PrefixExpression.need, Variable.need, PrefixExpression.Proper, Variable.Proper]
    exact ⟨by omega, hproper, kp⟩
  case dot =>
    refine mendsAt_consume _ hs hsymbol (by decide) (mends_name.bind_pure fun text l hl => ?_)
    subst hl
    refine hmore _ _ (.field text) ?_
    simp only [PrefixExpression.need, Variable.need, PrefixExpression.Proper, Variable.Proper]
    exact id
  case colon =>
    refine mendsAt_consume [.name "x", .string ""] hs hsymbol (by decide) ?_
    refine mends_name.bind (fun text l hl => ?_) fun _ _ => trivial
    subst hl
    refine (mends_arguments he h).bind_pure ?_
    rintro a _ ⟨⟨an, ap⟩, rfl⟩
    refine hmore _ _ (.method text a) ?_
    rintro ⟨hneed, hproper⟩
    simp only [PrefixExpression.need, Call.need, PrefixExpression.Proper, Call.Proper]
    exact ⟨by omega, hproper, ap⟩
  case leftParen | leftBrace | string => exact (hcall.mendsAt hs).of_cons
  all_goals exact mendsAt_pure hdone hs

include he in
theorem mends_prefixExpression :
    z.Mends (fun p l => (PrefixExpression.need p ≤ n ∧ p.Proper) ∧ l = p.writing) Anything
      [.name "x"] (prefixExpression expression) := by
  let I (p : PrefixExpression) (l : List Stretch) : Prop :=
    (p.need ≤ n ∧ p.Proper) ∧ l = p.writing
  have hround : ∀ {object l s}, I object l → z.Ends s →
      z.MendsAt (fun r m => if r.2 then I r.1 (l ++ m) else I r.1 (l ++ m)) Anything []
        (suffix expression object) s := by
    rintro object _ s ⟨hfits, rfl⟩ hs
    refine mendsAt_suffix he h hs ⟨hfits, by simp⟩ fun p ext hext hkeeps => ?_
    exact ⟨hkeeps hfits, hext.writing_eq.symm⟩
  refine (mends_primary h).bind (fun first l hl => ?_) fun _ _ => trivial
  exact mends_loop (I := I) (M := I) (progresses_suffix he) hround
    (fun {p l} hp => ⟨p, [], by simpa using hp, fits_nil⟩) (fun _ _ => trivial)
    (fun _ _ => trivial) hl

/-! ## Operands and operators -/

/-- A reading of operands that is mended with a tree for `n` levels. -/
def MendsOperand (z : Brink) (n : Nat) (x : Reading Expression) : Prop :=
  z.Mends (fun e l => IsOperand e ∧ (e.need ≤ n ∧ e.Proper 0) ∧ l = e.writing) Anything
    [.mark .nilWord] x

omit h in
/-- Words and the extra arguments are operands by themselves. -/
theorem mendsAt_word {y : Symbol} {word : Expression} (hs : z.Ends s) (hsymbol : s.symbol = y)
    (hy : y ≠ .endOfFile) (hoperand : IsOperand word) (hneed : word.need = 1)
    (hproper : word.Proper 0) (hwriting : word.writing = [.mark y]) :
    z.MendsAt (fun e l => IsOperand e ∧ (e.need ≤ n + 1 ∧ e.Proper 0) ∧ l = e.writing) Anything
      [.mark .nilWord] (do consume; pure word) s :=
  mendsAt_consume _ hs hsymbol hy (mends_pure ⟨hoperand, ⟨by omega, hproper⟩, hwriting.symm⟩)

omit h in
theorem mendsAt_unary {tight : Reading Expression}
    (ht : z.MendsExpression n UnaryOp.power tight) (op : UnaryOp) (hs : z.Ends s)
    (hsymbol : s.symbol = op.symbol) :
    z.MendsAt (fun e l => IsOperand e ∧ (e.need ≤ n + 1 ∧ e.Proper 0) ∧ l = e.writing) Anything
      [.mark .nilWord] (do consume; pure (.unary op (← tight))) s := by
  refine mendsAt_consume _ hs hsymbol (by cases op <;> decide) (ht.bind_pure ?_)
  rintro e _ ⟨⟨en, ep⟩, rfl⟩
  simp only [Expression.need, Expression.Proper, Expression.writing]
  exact ⟨trivial, ⟨by omega, ep⟩, trivial⟩

omit h in
/-- A number whose text stands for none is refused wherever the source ends. -/
theorem mendsAt_numeral (hs : z.Ends s) (hsymbol : s.symbol = .number) :
    z.MendsAt (fun e l => IsOperand e ∧ (e.need ≤ n + 1 ∧ e.Proper 0) ∧ l = e.writing) Anything
      [.mark .nilWord] (do pure (.number (← numeral))) s := by
  cases hvalue : Number.ofLiteral? s.current.lexeme with
  | none =>
    have hfault : numeral s = .error (s.fault (.malformedNumber s.current.lexeme)) s := by
      rw [numeral, hvalue]
      rfl
    exact mendsAt_of_fault hs (bind_eq_error.2 (.inl hfault))
  | some value =>
    have hmatch : (Terminal.number value).Matches s.current := ⟨hsymbol, hvalue⟩
    refine mendsAt_matches_bind (.number value) hs hmatch (by rintro ⟨⟩)
      (fun t hst => (numeral_eq_ok hsymbol).2 ⟨t, ⟨hmatch, hst⟩, rfl⟩)
      (fun hs' => moreSource.agreesAt_numeral.alike hs' hsymbol) (mends_pure ?_)
    simp only [Expression.need, Expression.Proper, Expression.writing]
    exact ⟨trivial, ⟨by omega, trivial⟩, trivial⟩

include he in
theorem mends_operandWith {tight : Reading Expression} {block : Reading Block}
    (ht : z.MendsExpression n UnaryOp.power tight) (hb : z.MendsBlock n block) :
    z.MendsOperand (n + 1) (operandWith expression tight block) := by
  have hprefixed : z.Mends (fun e l => IsOperand e ∧ (e.need ≤ n + 1 ∧ e.Proper 0) ∧ l = e.writing)
      Anything [.name "x"] (do pure (.prefixed (← prefixExpression expression))) := by
    refine (mends_prefixExpression he h).bind_pure ?_
    rintro p _ ⟨⟨pn, pp⟩, rfl⟩
    simp only [Expression.need, Expression.Proper, Expression.writing]
    exact ⟨trivial, ⟨by omega, pp⟩, trivial⟩
  have htable : z.Mends (fun e l => IsOperand e ∧ (e.need ≤ n + 1 ∧ e.Proper 0) ∧ l = e.writing)
      Anything [.mark .leftBrace, .mark .rightBrace] (do pure (.table (← table expression))) := by
    refine (mends_table he h).bind_pure ?_
    rintro all _ ⟨⟨fn, fp⟩, rfl⟩
    simp only [Expression.need, Expression.Proper, Expression.writing]
    exact ⟨trivial, ⟨by omega, fp⟩, trivial⟩
  refine ⟨fun {s} hs => mendsAt_symbol ?_, .nil, [.mark .nilWord], ?_,
    fits_one (Terminal.spellable_mark (by decide))⟩
  · cases hsymbol : s.symbol
    case nilWord | trueWord | falseWord | dotDotDot =>
      exact mendsAt_word hs hsymbol (by decide) trivial (by simp only [Expression.need])
        (by simp only [Expression.Proper]) (by simp [Expression.writing])
    case number => exact mendsAt_numeral hs hsymbol
    case string =>
      refine mendsAt_consumeLexeme _ (.string s.current.lexeme) hs ⟨hsymbol, rfl⟩
        (by rintro ⟨⟩) (mends_pure ?_)
      simp only [Expression.need, Expression.Proper, Expression.writing]
      exact ⟨trivial, ⟨by omega, trivial⟩, trivial⟩
    case functionWord =>
      refine mendsAt_consume _ hs hsymbol (by decide) ((mends_functionBody hb).bind_pure ?_)
      rintro body _ ⟨⟨bn, bp⟩, rfl⟩
      simp only [Expression.need, Expression.Proper, Expression.writing]
      exact ⟨trivial, ⟨by omega, bp⟩, trivial⟩
    case name | leftParen => exact (hprefixed.mendsAt hs).of_cons
    case leftBrace => exact (htable.mendsAt hs).of_cons
    case minus => exact mendsAt_unary ht .negate hs hsymbol
    case notWord => exact mendsAt_unary ht .not hs hsymbol
    case hash => exact mendsAt_unary ht .length hs hsymbol
    all_goals exact mendsAt_of_fault hs rfl
  · simp [IsOperand, Expression.need, Expression.Proper, Expression.writing]

omit h in
/-- A round over operators goes on with what ends where it does. -/
theorem stops_of_climbStep {m limit : Nat} {right : Nat → Reading Expression}
    (hr : ∀ power, ReadsExpression m power (right power)) {left left' : Expression}
    {s t : TokenStream} (h : climbStep right limit left s = .ok (left', true) t) :
    left'.Stops t.symbol := by
  obtain ⟨op, e, u, -, -, ⟨-, -, hstop, hbelow⟩, hr⟩ | ⟨-, -, hr⟩ := (climbStep_eq_ok hr).1 h <;>
    cases hr
  rw [Expression.Stops]
  exact ⟨hbelow, hstop⟩

omit h in
/-- An operand and the operators after it are mended if operands are, and right operands with one
level less. -/
theorem mends_placeWith {m : Nat} {operand : Reading Expression} {right : Nat → Reading Expression}
    (ho : ReadsOperand (m + 1) operand) (hr : ∀ power, ReadsExpression m power (right power))
    (hmo : z.MendsOperand (n + 1) operand)
    (hmr : ∀ power, z.MendsExpression n power (right power)) (power : Nat) :
    z.MendsExpression (n + 1) power (placeWith operand right power) := by
  let I (e : Expression) (l : List Stretch) : Prop :=
    (e.need ≤ n + 1 ∧ e.Proper power) ∧ l = e.writing
  have hround : ∀ {left l s}, I left l → left.Stops s.symbol → z.Ends s →
      z.MendsAt (fun r m => if r.2 then I r.1 (l ++ m) else I r.1 (l ++ m)) Anything []
        (climbStep right power left) s := by
    rintro left _ s ⟨⟨ln, lp⟩, rfl⟩ hstops hs
    have hdone : I left (left.writing ++ []) := ⟨⟨ln, lp⟩, by simp⟩
    refine mendsAt_symbol ?_
    cases hop : BinaryOp.ofSymbol? s.symbol with
    | none => exact mendsAt_pure hdone hs
    | some op =>
      have hsymbol := BinaryOp.symbol_of_ofSymbol? hop
      dsimp only
      split
      · exact mendsAt_pure hdone hs
      · next hpower =>
        refine mendsAt_consume _ hs hsymbol op.symbol_ne_endOfFile
          ((hmr op.rightPower).bind_pure ?_)
        rintro e _ ⟨⟨en, ep⟩, rfl⟩
        change I (.binary op left e) _
        simp only [I, Expression.need, Expression.Proper, Expression.writing]
        exact ⟨⟨by omega, by omega, lp, hsymbol ▸ hstops, ep⟩, trivial⟩
  have hfits : ∀ e l, IsOperand e ∧ (e.need ≤ n + 1 ∧ e.Proper 0) ∧ l = e.writing → I e l := by
    rintro e l ⟨hoperand, ⟨en, ep⟩, hl⟩
    exact ⟨⟨en, (hoperand.proper_iff power).2 ep⟩, hl⟩
  have hstop : ∀ {e l}, I e l → ∃ b m, I b (l ++ m) ∧ Fits [] Anything m :=
    fun {e l} he => ⟨e, [], by simpa using he, fits_nil⟩
  refine ⟨fun hs => (hmo.mendsAt hs).bind (fun e l t hread he ht => ?_)
    (fun e l he => hstop (hfits e l he)) fun _ _ => trivial, ?_⟩
  · exact mendsAt_loop (I := I) (M := I) (J := fun e s => e.Stops s.symbol)
      (progresses_climbStep hr power) (fun _ h => stops_of_climbStep hr h) hround hstop
      (fun _ _ => trivial) (fun _ _ => trivial) (hfits e l he) ((ho _ _ _).1 hread).2.2.2 ht
  · obtain ⟨e, l, he, hl⟩ := hmo.fills
    exact ⟨e, l, hfits e l he, hl⟩

end Expressions

end LuaLang.Brink
