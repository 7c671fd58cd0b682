import Mathlib
import LuaLang.Proofs.Grammar.Shape

/-!
# What rows and tables are read from

A rule that is given exact readings of the parts of a tree is an exact reading of the tree: it
succeeds with a tree just when the tree is proper, the levels are enough for it, and the stream
spans its writing and stops after it. This is shown here for rows of names, parameters and
expressions, and for table constructors.

## Main definitions

* `Grammar.ReadsExpression`, `Grammar.ReadsBlock`: readings that are exact.
* `Symbol.startsExpression`: the symbols that an expression can start with.
-/

namespace LuaLang

open TokenStream

/-! ## First symbols -/

/-- The symbols that an expression can start with. -/
def Symbol.startsExpression : Symbol → Bool
  | nilWord | trueWord | falseWord | number | string | dotDotDot | functionWord | name | leftParen
  | leftBrace | minus | notWord | hash => true
  | _ => false

theorem PrefixExpression.symbol_of_spans {s t : TokenStream} :
    (p : PrefixExpression) → Spans p.writing s t → s.symbol = .name ∨ s.symbol = .leftParen
  | .var (.name _), h => by
    rw [PrefixExpression.writing, Variable.writing] at h
    obtain ⟨u, ⟨⟨hs, -⟩, -⟩, -⟩ := h
    exact .inl hs
  | .var (.index object _), h => by
    rw [PrefixExpression.writing, Variable.writing, spans_append] at h
    obtain ⟨u, h, -⟩ := h
    exact object.symbol_of_spans h
  | .var (.field object _), h => by
    rw [PrefixExpression.writing, Variable.writing, spans_append] at h
    obtain ⟨u, h, -⟩ := h
    exact object.symbol_of_spans h
  | .paren _, h => by
    rw [PrefixExpression.writing] at h
    obtain ⟨u, ⟨hs, -⟩, -⟩ := h
    exact .inr hs
  | .call (.function callee _), h => by
    rw [PrefixExpression.writing, Call.writing, spans_append] at h
    obtain ⟨u, h, -⟩ := h
    exact callee.symbol_of_spans h
  | .call (.method object _ _), h => by
    rw [PrefixExpression.writing, Call.writing, spans_append] at h
    obtain ⟨u, h, -⟩ := h
    exact object.symbol_of_spans h

theorem PrefixExpression.size_lt_of_spans {s t : TokenStream} :
    (p : PrefixExpression) → Spans p.writing s t → t.size < s.size
  | .var (.name _), h => by
    rw [PrefixExpression.writing, Variable.writing] at h
    exact h.size_lt
  | .var (.index object _), h => by
    rw [PrefixExpression.writing, Variable.writing, spans_append] at h
    obtain ⟨u, hu, h⟩ := h
    exact h.size_le.trans_lt (object.size_lt_of_spans hu)
  | .var (.field object _), h => by
    rw [PrefixExpression.writing, Variable.writing, spans_append] at h
    obtain ⟨u, hu, h⟩ := h
    exact h.size_le.trans_lt (object.size_lt_of_spans hu)
  | .paren _, h => by
    rw [PrefixExpression.writing] at h
    exact h.size_lt
  | .call (.function callee _), h => by
    rw [PrefixExpression.writing, Call.writing, spans_append] at h
    obtain ⟨u, hu, h⟩ := h
    exact h.size_le.trans_lt (callee.size_lt_of_spans hu)
  | .call (.method object _ _), h => by
    rw [PrefixExpression.writing, Call.writing, spans_append] at h
    obtain ⟨u, hu, h⟩ := h
    exact h.size_le.trans_lt (object.size_lt_of_spans hu)

theorem Expression.startsExpression_of_spans {s t : TokenStream} :
    (e : Expression) → Spans e.writing s t → s.symbol.startsExpression = true
  | .nil, h | .varargs, h | .function _, h | .table _, h => by
    rw [Expression.writing] at h
    obtain ⟨u, ⟨hs, -⟩, -⟩ := h
    rw [show s.symbol = _ from hs]
    rfl
  | .number _, h | .string _, h => by
    rw [Expression.writing] at h
    obtain ⟨u, ⟨⟨hs, -⟩, -⟩, -⟩ := h
    rw [show s.symbol = _ from hs]
    rfl
  | .boolean value, h => by
    rw [Expression.writing] at h
    obtain ⟨u, ⟨hs, -⟩, -⟩ := h
    rw [show s.symbol = _ from hs]
    cases value <;> rfl
  | .prefixed value, h => by
    rw [Expression.writing] at h
    obtain hs | hs := value.symbol_of_spans h <;> rw [hs] <;> rfl
  | .unary op operand, h => by
    rw [Expression.writing] at h
    obtain ⟨u, ⟨hs, -⟩, -⟩ := h
    rw [show s.symbol = _ from hs]
    cases op <;> rfl
  | .binary op left right, h => by
    rw [Expression.writing, spans_append] at h
    obtain ⟨u, h, -⟩ := h
    exact left.startsExpression_of_spans h

theorem Expression.size_lt_of_spans {s t : TokenStream} :
    (e : Expression) → Spans e.writing s t → t.size < s.size
  | .nil, h | .boolean _, h | .number _, h | .string _, h | .varargs, h | .function _, h
  | .table _, h | .unary _ _, h => by
    rw [Expression.writing] at h
    exact Spans.size_lt h
  | .prefixed value, h => by
    rw [Expression.writing] at h
    exact value.size_lt_of_spans h
  | .binary _ left _, h => by
    rw [Expression.writing, spans_append] at h
    obtain ⟨u, hu, h⟩ := h
    exact h.size_le.trans_lt (left.size_lt_of_spans hu)

theorem Field.size_lt_of_spans {s t : TokenStream} (f : Field) (h : Spans f.writing s t) :
    t.size < s.size := by
  cases f with
  | item value =>
    rw [Field.writing] at h
    exact value.size_lt_of_spans h
  | keyed key value =>
    rw [Field.writing] at h
    exact h.size_lt
  | named text value =>
    rw [Field.writing] at h
    exact h.size_lt

theorem Field.symbol_ne_rightBrace_of_spans {s t : TokenStream} (f : Field)
    (h : Spans f.writing s t) : s.symbol ≠ .rightBrace := by
  cases f with
  | item value =>
    rw [Field.writing] at h
    intro hs
    have := value.startsExpression_of_spans h
    rw [hs] at this
    cases this
  | keyed key value =>
    rw [Field.writing] at h
    obtain ⟨u, ⟨hs, -⟩, -⟩ := h
    rw [show s.symbol = _ from hs]
    decide
  | named text value =>
    rw [Field.writing] at h
    obtain ⟨u, ⟨⟨hs, -⟩, -⟩, -⟩ := h
    rw [show s.symbol = _ from hs]
    decide

namespace Grammar

open Reading

/-! ## Rows -/

section Rows

variable {α : Type} {mark : Symbol} {item : Reading α}
  {p : α → Prop} {w : α → List Stretch} {q : α → Symbol → Prop}

/-- Things that can stand before the mark are read in a row just when the row is spanned and the
last of them ends where it does. -/
theorem run_iff (hf : ∀ a, q a mark) {more : List α} {s t : TokenStream} :
    Run mark (fun a u v => p a ∧ Spans (w a) u v ∧ q a v.symbol) more s t ↔
      (∀ a ∈ more, p a) ∧ Spans (more.flatMap fun a => .mark mark :: w a) s t ∧
        ∀ a ∈ more.getLast?, q a t.symbol := by
  induction more generalizing s with
  | nil => simp [Run]
  | cons a rest ih =>
    simp only [Run, ih, List.flatMap_cons, List.cons_append, spans_cons, spans_append,
      Stretch.mark_passes, List.forall_mem_cons]
    constructor
    · rintro ⟨u, v, hs, hu, ⟨ha, hv, hstop⟩, hrest, h, hlast⟩
      refine ⟨⟨ha, hrest⟩, ⟨u, ⟨hs, hu⟩, v, hv, h⟩, ?_⟩
      cases rest with
      | nil =>
        cases h
        simpa using hstop
      | cons b rest => simpa using hlast
    · rintro ⟨⟨ha, hrest⟩, ⟨u, ⟨hs, hu⟩, v, hv, h⟩, hlast⟩
      cases rest with
      | nil =>
        cases h
        exact ⟨u, t, hs, hu, ⟨ha, hv, by simpa using hlast⟩, hrest, rfl, by simp⟩
      | cons b rest =>
        have hmark : v.symbol = mark := by
          obtain ⟨w, hw, -⟩ := h
          exact hw.1
        rw [List.getLast?_cons_cons] at hlast
        exact ⟨u, v, hs, hu, ⟨ha, hv, hmark ▸ hf a⟩, hrest, h, hlast⟩

theorem separated_iff (hm : mark ≠ .endOfFile) (hf : ∀ a, q a mark)
    (hi : ∀ a s t, item s = .ok a t ↔ p a ∧ Spans (w a) s t ∧ q a t.symbol)
    {all : List α} {s t : TokenStream} :
    separated mark item s = .ok all t ↔
      all ≠ [] ∧ (∀ a ∈ all, p a) ∧ Spans (row (.mark mark) (all.map w)) s t ∧
        t.symbol ≠ mark ∧ ∀ a ∈ all.getLast?, q a t.symbol := by
  rw [separated_eq_ok hm hi (fun h => h.2.1.size_le)]
  constructor
  · rintro ⟨a, more, u, rfl, first, run, ht⟩
    obtain ⟨hmore, h, hlast⟩ := (run_iff hf).1 run
    refine ⟨by simp, by simpa using ⟨first.1, hmore⟩, ?_, ht, ?_⟩
    · simp only [List.map_cons, row, List.flatMap_map, spans_append]
      exact ⟨u, first.2.1, h⟩
    · cases more with
      | nil =>
        cases h
        simpa using first.2.2
      | cons b rest => simpa using hlast
  · rintro ⟨hne, hall, h, ht, hlast⟩
    obtain ⟨a, more, rfl⟩ := List.exists_cons_of_ne_nil hne
    simp only [List.map_cons, row, List.flatMap_map, spans_append] at h
    obtain ⟨u, hu, h⟩ := h
    obtain ⟨ha, hmore⟩ := List.forall_mem_cons.1 hall
    cases more with
    | nil =>
      cases h
      exact ⟨a, [], t, rfl, ⟨ha, hu, by simpa using hlast⟩, rfl, ht⟩
    | cons b rest =>
      have hmark : u.symbol = mark := by
        obtain ⟨v, hv, -⟩ := h
        exact hv.1
      rw [List.getLast?_cons_cons] at hlast
      exact ⟨a, b :: rest, u, rfl, ⟨ha, hu, hmark ▸ hf a⟩, (run_iff hf).2 ⟨hmore, h, hlast⟩, ht⟩

end Rows

/-- The last writing of a row stands after all others and their marks. -/
theorem row_concat (between : Stretch) (writings : List (List Stretch)) (last : List Stretch) :
    row between (writings ++ [last]) = (writings.flatMap fun w => w ++ [between]) ++ last := by
  cases writings with
  | nil => simp [row]
  | cons first rest =>
    have shift : ∀ ws : List (List Stretch),
        (ws ++ [last]).flatMap (between :: ·) =
          between :: ((ws.flatMap fun w => w ++ [between]) ++ last) := by
      intro ws
      induction ws with
      | nil => simp
      | cons w ws ih => simp [ih]
    simp [row, shift]

theorem expectName_eq_ok {text : String} {s t : TokenStream} :
    expectLexeme .name s = .ok text t ↔ True ∧ Spans [.name text] s t ∧ True := by
  simp [expectLexeme_eq_ok, and_assoc]

theorem nameRow_iff (mark : Symbol) (hm : mark ≠ .endOfFile) {all : List String}
    {s t : TokenStream} :
    separated mark (expectLexeme .name) s = .ok all t ↔
      all ≠ [] ∧ Spans (nameRow mark all) s t ∧ t.symbol ≠ mark := by
  rw [separated_iff hm (q := fun _ _ => True) (fun _ => trivial) fun _ _ _ => expectName_eq_ok]
  simp [nameRow]

theorem names_eq_ok {all : List String} {s t : TokenStream} :
    names s = .ok all t ↔ all ≠ [] ∧ Spans (nameRow .comma all) s t ∧ t.symbol ≠ .comma :=
  nameRow_iff .comma (by decide)

theorem functionName_eq_ok {name : FunctionName} {s t : TokenStream} (ht : t.symbol = .leftParen) :
    functionName s = .ok name t ↔ name.path ≠ [] ∧ Spans name.writing s t := by
  simp only [functionName, bind_eq_ok, nameRow_iff .dot (by decide),
    tryConsume_eq_ok (y := .colon) (by decide)]
  obtain ⟨path, method⟩ := name
  constructor
  · rintro ⟨path', u, ⟨hne, hu, hdot⟩, b, v, ⟨rfl, hcolon, hv⟩ | ⟨rfl, hcolon, rfl⟩, h⟩
    · rw [if_pos rfl] at h
      simp only [bind_eq_ok, pure_eq_ok, expectName_eq_ok, FunctionName.mk.injEq] at h
      obtain ⟨text, w, ⟨-, hw, -⟩, ⟨rfl, rfl⟩, rfl⟩ := h
      refine ⟨hne, ?_⟩
      simp only [FunctionName.writing, spans_append, spans_cons]
      exact ⟨u, hu, v, ⟨hcolon, hv⟩, hw⟩
    · simp only [Bool.false_eq_true, if_false, pure_eq_ok, FunctionName.mk.injEq] at h
      obtain ⟨⟨rfl, rfl⟩, rfl⟩ := h
      exact ⟨hne, by simpa [FunctionName.writing] using hu⟩
  · rintro ⟨hne, h⟩
    cases method with
    | none =>
      have h : Spans (nameRow .dot path) s t := by simpa [FunctionName.writing] using h
      refine ⟨path, t, ⟨hne, h, by simp [ht]⟩, false, t, .inr ⟨rfl, by simp [ht], rfl⟩, rfl⟩
    | some method =>
      simp only [FunctionName.writing, spans_append, spans_cons] at h
      obtain ⟨u, hu, v, ⟨hcolon, hv⟩, hw⟩ := h
      have hcolon : u.symbol = .colon := hcolon
      refine ⟨path, u, ⟨hne, hu, by simp [hcolon]⟩, true, v, .inl ⟨rfl, hcolon, hv⟩, ?_⟩
      rw [if_pos rfl, bind_of_ok (expectName_eq_ok.2 ⟨trivial, hw, trivial⟩)]
      rfl

/-! ## Parameters -/

/-- A round of the loop over parameters. -/
def parameterStep : List String × Bool → Reading ((List String × Bool) × Bool) :=
  fun (names, _) => do
    match ← symbol with
    | .dotDotDot => consume; pure ((names, true), false)
    | .name =>
      let names := (← consumeLexeme) :: names
      pure ((names, false), ← tryConsume .comma)
    | _ => fail fun s => .expected .name s.near

theorem parameterStep_eq_ok {names : List String} {varargs : Bool}
    {r : (List String × Bool) × Bool} {s t : TokenStream} :
    parameterStep (names, varargs) s = .ok r t ↔
      (s.symbol = .dotDotDot ∧ s.Next t ∧ r = ((names, true), false)) ∨
      ∃ text u, (Stretch.name text).Passes s u ∧
        ((u.symbol = .comma ∧ u.Next t ∧ r = ((text :: names, false), true)) ∨
          (u.symbol ≠ .comma ∧ u = t ∧ r = ((text :: names, false), false))) := by
  change (Reading.symbol >>= _) s = _ ↔ _
  rw [bind_of_ok symbol_eq]
  constructor
  · intro h
    cases hs : s.symbol
    case dotDotDot =>
      rw [hs] at h
      obtain ⟨_, u, hu, hr⟩ := bind_eq_ok.1 h
      obtain ⟨rfl, rfl⟩ := pure_eq_ok.1 hr
      exact .inl ⟨rfl, (consume_eq_ok (by simp [hs])).1 hu, rfl⟩
    case name =>
      rw [hs] at h
      obtain ⟨text, u, hu, h⟩ := bind_eq_ok.1 h
      obtain ⟨htext, hu⟩ := (consumeLexeme_eq_ok (by simp [hs])).1 hu
      obtain ⟨more, v, hv, hr⟩ := bind_eq_ok.1 h
      obtain ⟨rfl, rfl⟩ := pure_eq_ok.1 hr
      refine .inr ⟨text, u, ⟨⟨hs, htext⟩, hu⟩, ?_⟩
      obtain ⟨rfl, hc, hv⟩ | ⟨rfl, hc, hv⟩ := (tryConsume_eq_ok (by decide)).1 hv
      · exact .inl ⟨hc, hv, rfl⟩
      · exact .inr ⟨hc, hv, rfl⟩
    all_goals
      rw [hs] at h
      exact absurd h fail_ne_ok
  · rintro (⟨hs, hn, rfl⟩ | ⟨text, u, ⟨⟨hs, htext⟩, hu⟩, h⟩)
    · rw [hs]
      exact bind_eq_ok.2 ⟨(), t, hn.2, rfl⟩
    · have hs : s.symbol = .name := hs
      have htext : s.current.lexeme = text := htext
      rw [hs]
      refine bind_eq_ok.2 ⟨text, u, htext ▸ consumeLexeme_of_next hu, ?_⟩
      obtain ⟨hc, hn, rfl⟩ | ⟨hc, rfl, rfl⟩ := h
      · exact bind_eq_ok.2 ⟨true, t, tryConsume_of_next hc hn, rfl⟩
      · exact bind_eq_ok.2 ⟨false, u, tryConsume_of_ne hc, rfl⟩

theorem progresses_parameterStep : Progresses parameterStep := by
  rintro ⟨names, varargs⟩ r s t h
  obtain ⟨-, -, hr⟩ | ⟨text, u, hu, ⟨-, hn, -⟩ | ⟨-, -, hr⟩⟩ := parameterStep_eq_ok.1 h
  · cases hr
  · exact hn.size_lt.trans_le hu.size_le
  · cases hr

theorem parameters_sound {names : List String} {varargs : Bool} {s t : TokenStream}
    (h : parameters s = .ok (names, varargs) t) : Spans (parameterRow names varargs) s t := by
  rw [parameters, bind_of_ok symbol_eq] at h
  split at h
  · obtain ⟨hr, rfl⟩ := pure_eq_ok.1 h
    cases hr
    rfl
  · obtain ⟨⟨found, more⟩, u, hl, hr⟩ := bind_eq_ok.1 h
    obtain ⟨hr, rfl⟩ := pure_eq_ok.1 hr
    cases hr
    change loop parameterStep ([], false) s = _ at hl
    -- Before each round, all names so far are followed by a comma.
    refine loop_invariant progresses_parameterStep
      (fun (r : List String × Bool) u =>
        Spans (r.1.reverse.flatMap fun text => [Stretch.name text, .mark .comma]) s u)
      (fun r u => Spans (parameterRow r.1.reverse r.2) s u) ?_ ?_ ?_ hl
    · rintro ⟨found, b⟩ r u v hspan h
      obtain ⟨-, -, hr⟩ | ⟨text, w, hw, ⟨hc, hn, hr⟩ | ⟨-, -, hr⟩⟩ :=
        parameterStep_eq_ok.1 h <;> cases hr
      simp only [List.reverse_cons, List.flatMap_append, List.flatMap_cons, List.flatMap_nil,
        List.append_nil, spans_append]
      exact ⟨u, hspan, w, hw, v, ⟨hc, hn⟩, rfl⟩
    · rintro ⟨found, b⟩ r u v hspan h
      obtain ⟨hs, hn, hr⟩ | ⟨text, w, hw, ⟨-, -, hr⟩ | ⟨-, rfl, hr⟩⟩ :=
        parameterStep_eq_ok.1 h <;> cases hr
      · simp only [parameterRow, if_true, row_concat, List.flatMap_map, spans_append,
          List.cons_append, List.nil_append]
        exact ⟨u, hspan, v, ⟨hs, hn⟩, rfl⟩
      · simp only [parameterRow, Bool.false_eq_true, if_false, List.append_nil, List.reverse_cons,
          List.map_append, List.map_cons, List.map_nil, row_concat, List.flatMap_map,
          spans_append, List.cons_append, List.nil_append]
        exact ⟨u, hspan, w, hw, rfl⟩
    · rfl

/-- If another parameter follows a name, there is a comma between them. -/
theorem parameterRow_cons {text : String} {rest : List String} {varargs : Bool}
    (hrest : rest ≠ [] ∨ varargs = true) :
    parameterRow (text :: rest) varargs =
      .name text :: .mark .comma :: parameterRow rest varargs := by
  cases rest with
  | nil =>
    obtain rfl : varargs = true := by simpa using hrest
    rfl
  | cons next rest => simp [parameterRow, row]

theorem symbol_of_spans_parameterRow {names : List String} {varargs : Bool} {s t : TokenStream}
    (hne : names ≠ [] ∨ varargs = true) (h : Spans (parameterRow names varargs) s t) :
    s.symbol = .name ∨ s.symbol = .dotDotDot := by
  cases names with
  | nil =>
    obtain rfl : varargs = true := by simpa using hne
    obtain ⟨u, hu, -⟩ := h
    exact .inr hu.1
  | cons text rest =>
    obtain ⟨u, hu, -⟩ := h
    exact .inl hu.1.1

/-- The loop reads what is left of the parameters, if there are any. -/
theorem loop_parameterStep {names : List String} {varargs : Bool} (found : List String)
    {s t : TokenStream} (hne : names ≠ [] ∨ varargs = true)
    (h : Spans (parameterRow names varargs) s t) (ht : t.symbol = .rightParen) :
    loop parameterStep (found, false) s = .ok (names.reverse ++ found, varargs) t := by
  induction names generalizing found s with
  | nil =>
    obtain rfl : varargs = true := by simpa using hne
    obtain ⟨u, ⟨hs, hu⟩, rfl⟩ := h
    exact loop_of_done progresses_parameterStep (parameterStep_eq_ok.2 (.inl ⟨hs, hu, rfl⟩))
  | cons text rest ih =>
    by_cases hrest : rest ≠ [] ∨ varargs = true
    · rw [parameterRow_cons hrest] at h
      obtain ⟨u, hu, v, ⟨hc, hv⟩, h⟩ := h
      rw [loop_of_more progresses_parameterStep
        (parameterStep_eq_ok.2 (.inr ⟨text, u, hu, .inl ⟨hc, hv, rfl⟩⟩)), ih _ hrest h]
      simp
    · simp only [ne_eq, not_or, not_not, Bool.not_eq_true] at hrest
      obtain ⟨rfl, rfl⟩ := hrest
      obtain ⟨u, hu, rfl⟩ := h
      exact loop_of_done progresses_parameterStep
        (parameterStep_eq_ok.2 (.inr ⟨text, u, hu, .inr ⟨by simp [ht], rfl, rfl⟩⟩))

theorem parameters_complete {names : List String} {varargs : Bool} {s t : TokenStream}
    (h : Spans (parameterRow names varargs) s t) (ht : t.symbol = .rightParen) :
    parameters s = .ok (names, varargs) t := by
  rw [parameters, bind_of_ok symbol_eq]
  by_cases hne : names ≠ [] ∨ varargs = true
  · have hs : s.symbol ≠ .rightParen := by
      obtain hs | hs := symbol_of_spans_parameterRow hne h <;> simp [hs]
    rw [if_neg hs]
    refine bind_eq_ok.2 ⟨_, t, loop_parameterStep [] hne h ht, ?_⟩
    exact pure_eq_ok.2 ⟨by simp, rfl⟩
  · simp only [ne_eq, not_or, not_not, Bool.not_eq_true] at hne
    obtain ⟨rfl, rfl⟩ := hne
    cases h
    rw [if_pos ht]
    rfl

/-! ## Exact readings -/

/-- The reading gives an expression in a place of the given power just when the expression can be
read with `n` levels, the stream spans its writing, and it stops where the place stops. -/
def ReadsExpression (n power : Nat) (r : Reading Expression) : Prop :=
  ∀ e s t, r s = .ok e t ↔ (e.need ≤ n ∧ e.Proper power) ∧ Spans e.writing s t ∧
    (e.Stops t.symbol ∧ t.symbol.Below power)

/-- The reading gives a block just when the block can be read with `n` levels and the stream spans
its writing. -/
def ReadsBlock (n : Nat) (r : Reading Block) : Prop :=
  ∀ b s t, r s = .ok b t ↔ (b.need ≤ n ∧ b.Proper) ∧ Spans b.writing s t

section Rules

variable {n : Nat} {expression : Reading Expression} {block : Reading Block}
  {s t : TokenStream}

theorem expressions_eq_ok (he : ReadsExpression n 0 expression) {values : List Expression} :
    separated .comma expression s = .ok values t ↔
      values ≠ [] ∧ (Expression.needAll values ≤ n ∧ Expression.ProperAll values) ∧
        Spans (row (.mark .comma) (Expression.writings values)) s t ∧
          Expression.RowStops values t.symbol := by
  have hc : Symbol.comma.Closes := by decide
  rw [separated_iff (p := fun e : Expression => e.need ≤ n ∧ e.Proper 0) (w := Expression.writing)
    (q := fun e y => e.Stops y ∧ y.Below 0) (by decide) (fun e => ⟨hc.stops e, hc.below 0⟩) he,
    Expression.writings_eq_map, Expression.needAll_le, Expression.properAll_iff]
  constructor
  · rintro ⟨hne, hall, h, ht, hlast⟩
    obtain ⟨e, he⟩ := Option.ne_none_iff_exists'.1 (mt List.getLast?_eq_none_iff.1 hne)
    exact ⟨hne, ⟨fun e he => (hall e he).1, fun e he => (hall e he).2⟩, h, ht, (hlast e he).2,
      fun e he => (hlast e he).1⟩
  · rintro ⟨hne, ⟨hneed, hproper⟩, h, ht, hbelow, hlast⟩
    exact ⟨hne, fun e he => ⟨hneed e he, hproper e he⟩, h, ht, fun e he => ⟨hlast e he, hbelow⟩⟩

/-! ## Tables -/

/-- An entry of a table ends in front of the symbol. -/
def FieldStops : Field → Symbol → Prop
  | .item value, y => value.Stops y ∧ y.Below 0 ∧ y ≠ .equal
  | .keyed _ value, y => value.Stops y ∧ y.Below 0
  | .named _ value, y => value.Stops y ∧ y.Below 0

theorem fieldStops_of_closes {y : Symbol} (h : y.Closes) (he : y ≠ .equal) (f : Field) :
    FieldStops f y := by
  cases f with
  | item value => exact ⟨h.stops value, h.below 0, he⟩
  | keyed _ value => exact ⟨h.stops value, h.below 0⟩
  | named _ value => exact ⟨h.stops value, h.below 0⟩

theorem Expression.name?_eq_some {e : Expression} {text : String} (h : e.name? = some text) :
    e = .prefixed (.var (.name text)) := by
  unfold Expression.name? at h
  split at h
  · cases h
    rfl
  · cases h

theorem field_sound (he : ReadsExpression n 0 expression) {f : Field}
    (h : field expression s = .ok f t) :
    (f.need ≤ n ∧ f.Proper) ∧ Spans f.writing s t ∧ FieldStops f t.symbol := by
  obtain ⟨b, u, hb, h⟩ := bind_eq_ok.1 h
  obtain ⟨rfl, hs, hu⟩ | ⟨rfl, hs, rfl⟩ := (tryConsume_eq_ok (by decide)).1 hb
  · rw [if_pos rfl] at h
    simp only [monadLift_self, bind_eq_ok, pure_eq_ok, he _,
      expect_eq_ok (y := .rightBracket) (by decide), expect_eq_ok (y := .equal) (by decide)] at h
    obtain ⟨key, v, ⟨⟨kn, kp⟩, kw, -⟩, -, w, ⟨hv, hw⟩, -, x, ⟨hx, hy⟩, value, _,
      ⟨⟨vn, vp⟩, vw, vs⟩, rfl, rfl⟩ := h
    refine ⟨⟨?_, ?_⟩, ?_, vs⟩
    · rw [Field.need]
      omega
    · rw [Field.Proper]
      exact ⟨kp, vp⟩
    · simp only [Field.writing, spans_cons, spans_append, Stretch.mark_passes]
      exact ⟨u, ⟨hs, hu⟩, v, kw, w, ⟨hv, hw⟩, x, ⟨hx, hy⟩, vw⟩
  · simp only [monadLift_self, Bool.false_eq_true, if_false, bind_eq_ok, symbol_eq_ok] at h
    obtain ⟨value, u, hvalue, _, _, ⟨rfl, rfl⟩, h⟩ := h
    obtain ⟨⟨vn, vp⟩, vw, vs⟩ := (he _ _ _).1 hvalue
    split at h
    · next hu =>
      obtain ⟨_, v, hv, hm⟩ := bind_eq_ok.1 h
      have hv := (consume_eq_ok (by simp [hu])).1 hv
      cases htext : value.name? with
      | none =>
        rw [htext] at hm
        exact absurd hm unexpected_ne_ok
      | some text =>
        rw [htext] at hm
        obtain rfl := Expression.name?_eq_some htext
        obtain ⟨value, w, hvalue, h⟩ := bind_eq_ok.1 hm
        obtain ⟨rfl, rfl⟩ := pure_eq_ok.1 h
        obtain ⟨⟨wn, wp⟩, ww, ws⟩ := (he _ _ _).1 hvalue
        refine ⟨⟨?_, ?_⟩, ?_, ws⟩
        · rwa [Field.need]
        · rwa [Field.Proper]
        · simp only [Expression.writing, PrefixExpression.writing, Variable.writing, spans_cons,
            spans_nil] at vw
          obtain ⟨_, hname, rfl⟩ := vw
          simp only [Field.writing, spans_cons, Stretch.mark_passes]
          exact ⟨_, hname, v, ⟨hu, hv⟩, ww⟩
    · next hu =>
      obtain ⟨rfl, rfl⟩ := pure_eq_ok.1 h
      refine ⟨⟨?_, ?_⟩, ?_, vs.1, vs.2, hu⟩
      · rwa [Field.need]
      · rwa [Field.Proper]
      · rwa [Field.writing]

theorem field_complete (he : ReadsExpression n 0 expression) {f : Field}
    (hneed : f.need ≤ n) (hproper : f.Proper) (hw : Spans f.writing s t)
    (hstop : FieldStops f t.symbol) : field expression s = .ok f t := by
  cases f with
  | keyed key value =>
    rw [Field.need] at hneed
    rw [Field.Proper] at hproper
    simp only [Field.writing, spans_cons, spans_append, Stretch.mark_passes] at hw
    obtain ⟨u, ⟨hs, hu⟩, v, kw, w, ⟨hv, hw⟩, x, ⟨hx, hy⟩, vw⟩ := hw
    have hc : v.symbol.Closes := by rw [hv]; decide
    have hkey := (he _ _ _).2 ⟨⟨by omega, hproper.1⟩, kw, hc.stops _, hc.below 0⟩
    have hvalue := (he _ _ _).2 ⟨⟨by omega, hproper.2⟩, vw, hstop⟩
    simp only [field, monadLift_self]
    rw [bind_of_ok (tryConsume_of_next hs hu), if_pos rfl, bind_of_ok hkey,
      bind_of_ok (expect_of_next hv hw), bind_of_ok (expect_of_next hx hy), bind_of_ok hvalue]
    rfl
  | item value =>
    rw [Field.need] at hneed
    rw [Field.Proper] at hproper
    rw [Field.writing] at hw
    have hs : s.symbol ≠ .leftBracket := by
      intro hs
      have := value.startsExpression_of_spans hw
      rw [hs] at this
      cases this
    have hvalue := (he _ _ _).2 ⟨⟨hneed, hproper⟩, hw, hstop.1, hstop.2.1⟩
    simp only [field, monadLift_self]
    rw [bind_of_ok (tryConsume_of_ne hs), if_neg (by decide), bind_of_ok hvalue,
      bind_of_ok symbol_eq, if_neg hstop.2.2]
    rfl
  | named text value =>
    rw [Field.need] at hneed
    rw [Field.Proper] at hproper
    simp only [Field.writing, spans_cons, Stretch.mark_passes] at hw
    obtain ⟨u, hname, v, ⟨hu, hv⟩, vw⟩ := hw
    have hs : s.symbol ≠ .leftBracket := by
      rw [show s.symbol = _ from hname.1.1]
      decide
    have hc : u.symbol.Closes := by rw [hu]; decide
    have hfirst : expression s = .ok (.prefixed (.var (.name text))) u := by
      refine (he _ _ _).2 ⟨⟨?_, ?_⟩, ?_, hc.stops _, hc.below 0⟩
      · have := value.need_pos
        simp only [Expression.need, PrefixExpression.need, Variable.need]
        omega
      · simp only [Expression.Proper, PrefixExpression.Proper, Variable.Proper]
      · simp only [Expression.writing, PrefixExpression.writing, Variable.writing]
        exact ⟨u, hname, rfl⟩
    have hvalue := (he _ _ _).2 ⟨⟨hneed, hproper⟩, vw, hstop⟩
    simp only [field, monadLift_self]
    rw [bind_of_ok (tryConsume_of_ne hs), if_neg (by decide), bind_of_ok hfirst,
      bind_of_ok symbol_eq, if_pos hu, bind_of_ok hv.2]
    exact bind_eq_ok.2 ⟨value, t, hvalue, rfl⟩

theorem field_eq_ok (he : ReadsExpression n 0 expression) (f : Field) (s t : TokenStream) :
    field expression s = .ok f t ↔
      (f.need ≤ n ∧ f.Proper) ∧ Spans f.writing s t ∧ FieldStops f t.symbol :=
  ⟨field_sound he, fun ⟨⟨hneed, hproper⟩, hw, hstop⟩ => field_complete he hneed hproper hw hstop⟩

/-- A round of the loop over the entries of a table. -/
def fieldStep (expression : Reading Expression) (entries : List Field) :
    Reading (List Field × Bool) := do
  if (← symbol) = .rightBrace then pure (entries, false)
  else
    let entries := (← field expression) :: entries
    match ← symbol with
    | .comma | .semicolon => consume; pure (entries, true)
    | .rightBrace => pure (entries, false)
    | _ => unexpected

theorem fieldStep_eq_ok {entries : List Field} {r : List Field × Bool} :
    fieldStep expression entries s = .ok r t ↔
      (s.symbol = .rightBrace ∧ s = t ∧ r = (entries, false)) ∨
      (s.symbol ≠ .rightBrace ∧ ∃ f u, field expression s = .ok f u ∧
        ((Stretch.separator.Passes u t ∧ r = (f :: entries, true)) ∨
          (u.symbol = .rightBrace ∧ u = t ∧ r = (f :: entries, false)))) := by
  rw [fieldStep, bind_of_ok symbol_eq]
  by_cases hs : s.symbol = .rightBrace
  · simp [hs, pure_eq_ok, and_comm, eq_comm]
  · simp only [hs, if_false, bind_eq_ok, symbol_eq_ok, false_and, false_or, not_false_eq_true,
      true_and, ne_eq]
    refine exists_congr fun f => exists_congr fun u => and_congr_right fun hf => ?_
    constructor
    · rintro ⟨_, _, ⟨rfl, rfl⟩, h⟩
      cases hu : u.symbol
      case comma =>
        rw [hu] at h
        obtain ⟨_, v, hv, h⟩ := bind_eq_ok.1 h
        obtain ⟨rfl, rfl⟩ := pure_eq_ok.1 h
        exact .inl ⟨⟨.inl hu, by simp [hu], hv⟩, rfl⟩
      case semicolon =>
        rw [hu] at h
        obtain ⟨_, v, hv, h⟩ := bind_eq_ok.1 h
        obtain ⟨rfl, rfl⟩ := pure_eq_ok.1 h
        exact .inl ⟨⟨.inr hu, by simp [hu], hv⟩, rfl⟩
      case rightBrace =>
        rw [hu] at h
        obtain ⟨rfl, rfl⟩ := pure_eq_ok.1 h
        exact .inr ⟨rfl, rfl, rfl⟩
      all_goals
        rw [hu] at h
        exact absurd h unexpected_ne_ok
    · rintro (⟨⟨hu | hu, hv⟩, rfl⟩ | ⟨hu, rfl, rfl⟩) <;> refine ⟨_, u, ⟨rfl, rfl⟩, ?_⟩ <;> rw [hu]
      · exact bind_eq_ok.2 ⟨(), t, hv.2, rfl⟩
      · exact bind_eq_ok.2 ⟨(), t, hv.2, rfl⟩
      · rfl

theorem progresses_fieldStep (he : ReadsExpression n 0 expression) :
    Progresses (fieldStep expression) := by
  intro entries entries' s t h
  obtain ⟨-, -, h⟩ | ⟨-, f, u, hf, ⟨hu, -⟩ | ⟨-, -, h⟩⟩ := fieldStep_eq_ok.1 h
  · cases h
  · have hf := ((field_eq_ok he _ _ _).1 hf).2.1.size_le
    exact hu.2.size_lt.trans_le hf
  · cases h

theorem fields_sound (he : ReadsExpression n 0 expression) {all : List Field}
    (h : fields expression s = .ok all t) (ht : t.symbol = .rightBrace) :
    (∀ f ∈ all, f.need ≤ n ∧ f.Proper) ∧
      Spans (row .separator (all.map Field.writing) ++
        if all = [] then [] else [.trailing]) s t := by
  obtain ⟨entries, u, hl, hr⟩ := bind_eq_ok.1 h
  obtain ⟨rfl, rfl⟩ := pure_eq_ok.1 hr
  change loop (fieldStep expression) [] s = _ at hl
  revert ht
  -- Before each round, all entries so far are followed by a separator.
  refine loop_invariant (progresses_fieldStep he)
    (fun (entries : List Field) u => (∀ f ∈ entries, f.need ≤ n ∧ f.Proper) ∧
      Spans (entries.reverse.flatMap fun f => f.writing ++ [Stretch.separator]) s u)
    (fun entries u => u.symbol = .rightBrace → (∀ f ∈ entries.reverse, f.need ≤ n ∧ f.Proper) ∧
      Spans (row .separator (entries.reverse.map Field.writing) ++
        if entries.reverse = [] then [] else [.trailing]) s u) ?_ ?_ ?_ hl
  · rintro entries entries' u v ⟨hall, hspan⟩ h
    obtain ⟨-, -, hr⟩ | ⟨-, f, w, hf, ⟨hw, hr⟩ | ⟨-, -, hr⟩⟩ := fieldStep_eq_ok.1 h <;> cases hr
    obtain ⟨hfits, hwriting, -⟩ := (field_eq_ok he _ _ _).1 hf
    refine ⟨by simpa using ⟨hfits, hall⟩, ?_⟩
    simp only [List.reverse_cons, List.flatMap_append, List.flatMap_cons, List.flatMap_nil,
      List.append_nil, spans_append]
    exact ⟨u, hspan, w, hwriting, v, hw, rfl⟩
  · rintro entries entries' u v ⟨hall, hspan⟩ h hv
    obtain ⟨hu, rfl, hr⟩ | ⟨-, f, w, hf, ⟨-, hr⟩ | ⟨-, rfl, hr⟩⟩ := fieldStep_eq_ok.1 h <;> cases hr
    · refine ⟨by simpa using hall, ?_⟩
      -- The separator after the last entry is one that may be left out.
      cases entries with
      | nil => simpa [row] using hspan
      | cons f entries =>
        simp only [List.reverse_cons, List.flatMap_append, List.flatMap_cons, List.flatMap_nil,
          List.append_nil, spans_append] at hspan
        obtain ⟨w, hfirst, x, hf, _, hx, rfl⟩ := hspan
        simp only [List.reverse_cons, List.map_append, List.map_cons, List.map_nil, row_concat,
          List.flatMap_map, List.append_eq_nil_iff, List.cons_ne_self, and_false, if_false,
          spans_append]
        exact ⟨x, ⟨w, hfirst, hf⟩, _, ⟨hu, .inr hx⟩, rfl⟩
    · obtain ⟨hfits, hwriting, -⟩ := (field_eq_ok he _ _ _).1 hf
      refine ⟨?_, ?_⟩
      · intro g hg
        rw [List.mem_reverse, List.mem_cons] at hg
        obtain rfl | hg := hg
        · exact hfits
        · exact hall g hg
      · simp only [List.reverse_cons, List.map_append, List.map_cons, List.map_nil, row_concat,
          List.flatMap_map, List.append_eq_nil_iff, List.cons_ne_self, and_false, if_false,
          spans_append]
        exact ⟨w, ⟨u, hspan, hwriting⟩, w, ⟨hv, .inl rfl⟩, rfl⟩
  · exact ⟨by simp, rfl⟩

/-- The loop reads an entry and all that follow it. -/
theorem loop_fieldStep (he : ReadsExpression n 0 expression) (ht : t.symbol = .rightBrace)
    {f : Field} {rest : List Field} (entries : List Field)
    (hfits : ∀ g ∈ f :: rest, g.need ≤ n ∧ g.Proper)
    (h : Spans (row .separator ((f :: rest).map Field.writing) ++ [.trailing]) s t) :
    loop (fieldStep expression) entries s = .ok (rest.reverse ++ f :: entries) t := by
  have progress := progresses_fieldStep he
  have stops : ∀ {u : TokenStream} (f : Field),
      u.symbol = .comma ∨ u.symbol = .semicolon ∨ u.symbol = .rightBrace →
        FieldStops f u.symbol := by
    rintro u f (hu | hu | hu) <;> rw [hu] <;> exact fieldStops_of_closes (by decide) (by decide) f
  induction rest generalizing f entries s with
  | nil =>
    obtain ⟨hneed, hproper⟩ := hfits f (by simp)
    simp only [List.map_cons, List.map_nil, row, List.flatMap_nil, List.append_nil,
      spans_append] at h
    obtain ⟨u, hu, _, ⟨-, rfl | ⟨hsep, hnext⟩⟩, rfl⟩ := h
    · have hf := field_complete he hneed hproper hu (stops f (.inr (.inr ht)))
      exact loop_of_done progress (fieldStep_eq_ok.2
        (.inr ⟨f.symbol_ne_rightBrace_of_spans hu, f, u, hf, .inr ⟨ht, rfl, rfl⟩⟩))
    · have hf := field_complete he hneed hproper hu (stops f (by tauto))
      rw [loop_of_more progress (fieldStep_eq_ok.2
        (.inr ⟨f.symbol_ne_rightBrace_of_spans hu, f, u, hf, .inl ⟨⟨hsep, hnext⟩, rfl⟩⟩))]
      exact loop_of_done progress (fieldStep_eq_ok.2 (.inl ⟨ht, rfl, rfl⟩))
  | cons g rest ih =>
    obtain ⟨hneed, hproper⟩ := hfits f (by simp)
    simp only [List.map_cons, row, List.flatMap_cons, List.append_assoc, List.cons_append,
      spans_append, spans_cons] at h
    obtain ⟨u, hu, v, hsep, h⟩ := h
    have hf := field_complete he hneed hproper hu (stops f (by have := hsep.1; tauto))
    rw [loop_of_more progress (fieldStep_eq_ok.2
      (.inr ⟨f.symbol_ne_rightBrace_of_spans hu, f, u, hf, .inl ⟨hsep, rfl⟩⟩)),
      ih _ (fun x hx => hfits x (List.mem_cons_of_mem f hx))
        (by simpa only [List.map_cons, row, List.append_assoc, spans_append, spans_cons] using h)]
    simp

theorem fields_complete (he : ReadsExpression n 0 expression) {all : List Field}
    (hall : ∀ f ∈ all, f.need ≤ n ∧ f.Proper)
    (h : Spans (row .separator (all.map Field.writing) ++ if all = [] then [] else [.trailing]) s t)
    (ht : t.symbol = .rightBrace) : fields expression s = .ok all t := by
  change (loop (fieldStep expression) [] >>= fun entries => pure entries.reverse) s = _
  cases all with
  | nil =>
    rw [if_pos rfl] at h
    cases h
    have hdone : loop (fieldStep expression) [] s = .ok [] s :=
      loop_of_done (progresses_fieldStep he) (fieldStep_eq_ok.2 (.inl ⟨ht, rfl, rfl⟩))
    rw [bind_of_ok hdone]
    rfl
  | cons f rest =>
    rw [if_neg (by simp)] at h
    rw [bind_of_ok (loop_fieldStep he ht [] hall h)]
    exact pure_eq_ok.2 ⟨by simp, rfl⟩

theorem table_eq_ok (he : ReadsExpression n 0 expression) {all : List Field} :
    table expression s = .ok all t ↔
      (Field.needAll all ≤ n ∧ Field.ProperAll all) ∧ Spans (braced (Field.writings all)) s t := by
  rw [Field.needAll_le, Field.properAll_iff, Field.writings_eq_map, ← forall₂_and]
  simp only [table, monadLift_self, bind_eq_ok, pure_eq_ok,
    expect_eq_ok (y := .leftBrace) (by decide),
    expect_eq_ok (y := .rightBrace) (by decide), braced, List.cons_append, spans_cons,
    spans_append, spans_nil, Stretch.mark_passes, List.map_eq_nil_iff]
  constructor
  · rintro ⟨_, u, ⟨hs, hu⟩, all', v, hv, _, w, ⟨hv', hw⟩, rfl, rfl⟩
    obtain ⟨hall, h⟩ := fields_sound he hv hv'
    exact ⟨hall, u, ⟨hs, hu⟩, v, spans_append.1 h, w, ⟨hv', hw⟩, rfl⟩
  · rintro ⟨hall, u, ⟨hs, hu⟩, v, h, w, ⟨hv, hw⟩, rfl⟩
    exact ⟨(), u, ⟨hs, hu⟩, all, v, fields_complete he hall (spans_append.2 h) hv, (), w,
      ⟨hv, hw⟩, rfl, rfl⟩

end Rules

end Grammar

end LuaLang
