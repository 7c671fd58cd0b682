import Mathlib
import LuaLang.Proofs.Printing.Spelling

/-!
# What expressions are printed as

One fact for each kind of expression: if its parts are printed as texts that spell their writings,
so is the whole. An expression does not start with a bracket or an equals sign, so it can stand
after an opening bracket, and it ends before whatever is neither a point nor part of a name.

## Main definitions

* `Edge.start`, `Edge.stop`: before and after an expression.
* `Edge.head`, `Edge.tail`: before and after a prefix expression.
-/

namespace LuaLang

namespace Edge

/-- A place where anything may come next. -/
def free : Edge := ⟨false, fun _ _ => true⟩

/-- Before an expression. -/
def start : Edge := ⟨false, fun c _ => c != some '[' && c != some '='⟩

/-- After an expression. -/
def stop : Edge := ⟨true, fun c _ => c.all fun d => Lexeme.endsName d && d != '.'⟩

/-- Before a prefix expression. -/
def head : Edge :=
  ⟨false, fun c y =>
    c == some '(' && y == .leftParen || c.any Lexeme.isNameStart && y == .name⟩

/-- After a prefix expression, where arguments may follow. -/
def tail : Edge := ⟨true, fun c _ => c.all Lexeme.endsName⟩

/-- After a mark that a name follows. -/
def beforeName : Edge := ⟨false, fun c _ => c.any Lexeme.isNameStart⟩

/-- Before the brace that closes a table. -/
def beforeBrace : Edge := ⟨true, fun c y => c == some '\x7d' && y == .rightBrace⟩

theorem stop_next {c : Char} {y : Symbol} (h : stop.next (some c) y = true) :
    Lexeme.endsName c = true ∧ c ≠ '.' := by
  simpa [stop] using h

theorem endsNumber_of_stop {c : Char} {y : Symbol} (h : stop.next (some c) y = true) :
    Lexeme.endsNumber c = true := by
  obtain ⟨hname, hdot⟩ := stop_next h
  simp only [Lexeme.endsName, Lexeme.isNameChar, Bool.not_eq_true', Bool.or_eq_false_iff] at hname
  simp [Lexeme.endsNumber, hname.1, hname.2, hdot]

theorem tail_of_stop {c : Option Char} {y : Symbol} (h : stop.next c y = true) :
    tail.next c y = true := by
  cases c with
  | none => rfl
  | some c => exact (stop_next h).1

theorem start_of_nameStart {c : Char} (h : Lexeme.isNameStart c = true) (y : Symbol) :
    start.next (some c) y = true := by
  have hne : c ≠ '[' ∧ c ≠ '=' := by
    constructor <;> rintro rfl <;> exact absurd h (by decide)
  simp [start, hne.1, hne.2]

theorem start_of_head {c : Option Char} {y : Symbol} (h : head.next c y = true) :
    start.next c y = true := by
  simp only [head, Bool.or_eq_true, Bool.and_eq_true, beq_iff_eq] at h
  obtain ⟨rfl, -⟩ | ⟨h, -⟩ := h
  · rfl
  · obtain ⟨d, rfl, hd⟩ : ∃ d, c = some d ∧ Lexeme.isNameStart d = true := by
      simpa [Option.any_eq_true] using h
    exact start_of_nameStart hd y

end Edge

namespace Spells

variable {l r : Edge} {w : List Stretch}

/-! ## Rows -/

theorem comma {r : Edge} (hl : l.next (some ',') .comma = true) :
    Spells l ", ".toList [.mark .comma] r :=
  symbol_blank (y := .comma) (by decide) hl

theorem toList_commas {α : Type} (text : α → String) (items : List α) :
    (commas (items.map text)).toList =
      ", ".toList.intercalate (items.map fun a => (text a).toList) := by
  rw [commas, String.toList_intercalate, List.map_map]
  rfl

/-- Texts between an opening and a closing one, with separators, or nothing at all. -/
theorem enclosed {α : Type} {i m : Edge} {text : α → List Char} {writing : α → List Stretch}
    {sep as bs : List Char} {between : Stretch} {v w : List Stretch} {items : List α}
    (hopen : Spells l as v i) (h : ∀ a ∈ items, Spells i (text a) (writing a) m)
    (hsep : Spells m sep [between] i) (hclose : Spells m bs w r) (hnone : Spells i bs w r) :
    Spells l (as ++ (sep.intercalate (items.map text) ++ bs))
      (v ++ (LuaLang.row between (items.map writing) ++ w)) r := by
  cases items with
  | nil => exact hopen.trans hnone
  | cons a rest => exact hopen.trans ((row (by simp) h hsep).trans hclose)

end Spells

/-! ## Expressions -/

section

variable {e e' : Expression} {v : PrefixExpression} {a : Arguments} {fields : List Field}
  {body : FunctionBody} {l r : Edge}

/-! What is printed is not empty. -/

theorem Variable.print_ne_nil (v : Variable) (h : Lexical v.writing) : v.print.toList ≠ [] := by
  cases v with
  | name text =>
    have hname : Lexeme.IsName text := h (.name text) (by simp [writing, Stretch.name])
    obtain ⟨c, cs, htext, -⟩ := hname.start
    rw [Variable.print, htext]
    simp
  | index object key => simp [Variable.print]
  | field object text => simp [Variable.print]

theorem Call.print_ne_nil (c : Call) : c.print.toList ≠ [] := by
  have harguments : ∀ a : Arguments, a.print.toList ≠ [] := by
    intro a
    cases a with
    | list values => simp [Arguments.print]
    | table fields => simp [Arguments.print]
    | string text => simp [Arguments.print, Lexeme.toList_stringLiteral]
  cases c with
  | function callee a => simp [Call.print, harguments a]
  | method object text a => simp [Call.print]

theorem PrefixExpression.print_ne_nil (v : PrefixExpression) (h : Lexical v.writing) :
    v.print.toList ≠ [] := by
  cases v with
  | var target =>
    rw [PrefixExpression.writing] at h
    rw [PrefixExpression.print]
    exact target.print_ne_nil h
  | paren value => simp [PrefixExpression.print]
  | call call =>
    rw [PrefixExpression.print]
    exact call.print_ne_nil

theorem Expression.print_ne_nil (e : Expression) (h : Lexical e.writing) : e.print.toList ≠ [] := by
  cases e with
  | number value =>
    have hvalue : Number.IsLiteral value := h (.number value) (by simp [writing])
    obtain ⟨d, ds, htext, -⟩ := Lexeme.isNumeral_numberLiteral hvalue
    rw [Expression.print, htext]
    simp
  | boolean value => cases value <;> simp [Expression.print]
  | string text => simp [Expression.print, Lexeme.toList_stringLiteral]
  | prefixed value =>
    rw [Expression.writing] at h
    rw [Expression.print]
    exact value.print_ne_nil h
  | unary op operand =>
    have hsign : ∀ sign text : String, sign ≠ "" → (afterSign sign text).toList ≠ [] := by
      intro sign text hsign
      rw [afterSign]
      split <;> simp [hsign]
    cases op with
    | not => simp [Expression.print]
    | negate =>
      rw [Expression.print]
      · exact hsign _ _ (by decide)
      · simp
    | length =>
      rw [Expression.print]
      · exact hsign _ _ (by decide)
      · simp
  | _ => simp [Expression.print]

/-! ## Printed rows -/

theorem Field.printAll_eq_map (fields : List Field) :
    Field.printAll fields = fields.map Field.print := by
  induction fields with
  | nil => rw [Field.printAll]; rfl
  | cons f rest ih => rw [Field.printAll, ih]; rfl

theorem Expression.printAll_eq_map (values : List Expression) :
    Expression.printAll values = values.map Expression.print := by
  induction values with
  | nil => rw [Expression.printAll]; rfl
  | cons e rest ih => rw [Expression.printAll, ih]; rfl

theorem spells_braced (hl : l.next (some '\x7b') .leftBrace = true)
    (h : ∀ f ∈ fields, Spells .free f.print.toList f.writing .stop) :
    Spells l ("\x7b" ++ commas (Field.printAll fields) ++ "\x7d").toList
      (braced (Field.writings fields)) r := by
  have hopen : Spells l "\x7b".toList [.mark .leftBrace] .free :=
    .mark (y := .leftBrace) (by decide) hl fun _ _ _ => rfl
  rw [Field.printAll_eq_map, Field.writings_eq_map, String.toList_append, String.toList_append,
    Spells.toList_commas, List.append_assoc]
  cases fields with
  | nil => exact hopen.trans (.mark (y := .rightBrace) (by decide) rfl fun _ _ _ => rfl)
  | cons f rest =>
    have hsep : Spells .stop ", ".toList [.separator] .free :=
      (Spells.comma rfl).respan (fun _ => lexical_mark .comma) fun s u c _ hsu => by
        obtain ⟨i, ⟨hs, hi⟩, rfl⟩ := hsu
        exact ⟨_, ⟨.inl hs, hi⟩, rfl⟩
    have htrailing : Spells .stop [] [.trailing] .beforeBrace := by
      refine .nothing (fun _ => rfl) fun c s hs => ?_
      simp only [Edge.beforeBrace, Bool.and_eq_true, beq_iff_eq] at hs
      obtain ⟨rfl, hs⟩ := hs
      exact ⟨⟨hs, .inl rfl⟩, rfl⟩
    have hclose : Spells .beforeBrace "\x7d".toList [.mark .rightBrace] r :=
      .mark (y := .rightBrace) (by decide) rfl fun _ _ _ => rfl
    have hrow := Spells.row (by simp) h hsep
    have hall := hopen.trans (hrow.trans (htrailing.trans hclose))
    simpa [braced] using hall

/-- Values in a row. -/
theorem spells_values {values : List Expression} (hne : values ≠ [])
    (h : ∀ e ∈ values, Spells .start e.print.toList e.writing .stop) :
    Spells .start (commas (Expression.printAll values)).toList
      (row (.mark .comma) (Expression.writings values)) .stop := by
  rw [Expression.printAll_eq_map, Expression.writings_eq_map, Spells.toList_commas]
  exact .row hne h (.comma rfl)

/-- A sign with a text behind it that could start with a hyphen. -/
theorem spells_afterSign {y : Symbol} (hy : y ∈ Symbol.punctuation)
    (hends : ∀ c, c ≠ '-' → Lexeme.endsMark y c = true)
    (hl : l.next y.text.toList.head? y = true) {text : String} {w : List Stretch}
    (hne : Lexical w → text.toList ≠ []) (h : Spells .start text.toList w r) :
    Spells l (afterSign y.text text).toList (.mark y :: w) r := by
  have hmem := List.mem_append_right Symbol.reserved hy
  rw [afterSign]
  split
  · have hlead := Spells.symbol_blank (r := .start) hmem hl
    simpa using hlead.trans h
  · next hstart =>
    have hsign : Spells l y.text.toList [.mark y] ⟨true, fun c _ => c != some '-'⟩ :=
      .mark hy hl fun c _ hc => hends c (by simpa using hc)
    rw [String.toList_append]
    refine hsign.trans (h.start (fun hs => by cases hs) hne fun c hc _ _ => ?_)
    have hc' : c ≠ '-' := by
      rintro rfl
      obtain ⟨rest, hrest⟩ := List.head?_eq_some_iff.1 hc
      exact hstart (by simp [hrest])
    simpa using hc'

theorem spells_prefixed (h : Spells .head v.print.toList v.writing .tail) :
    Spells .start v.print.toList v.writing .stop :=
  (h.left (fun hl => by cases hl) fun _ _ => Edge.start_of_head).right (fun _ => rfl)
    fun _ _ => Edge.tail_of_stop

theorem spells_binary (op : BinaryOp) (h : Spells .start e.print.toList e.writing .stop)
    (h' : Spells .start e'.print.toList e'.writing .stop) :
    Spells .start (Expression.binary op e e').print.toList (Expression.binary op e e').writing
      .stop := by
  have hop : op.symbol ∈ Symbol.reserved ++ Symbol.punctuation := by cases op <;> decide
  have hmid : Spells .stop ([' '] ++ (op.symbol.text.toList ++ [' '])) [.mark op.symbol] .start :=
    .blank_symbol_blank hop rfl
  rw [Expression.print, Expression.writing, BinaryOp.text]
  simpa using h.trans (hmid.trans h')

theorem spells_not (h : Spells .start e.print.toList e.writing .stop) :
    Spells .start (Expression.unary .not e).print.toList (Expression.unary .not e).writing
      .stop := by
  have hnot : Spells .start "not ".toList [.mark .notWord] .start :=
    .symbol_blank (y := .notWord) (by decide) rfl
  rw [Expression.print, Expression.writing, String.toList_append]
  exact hnot.trans h

theorem spells_sign {op : UnaryOp} (hop : op ≠ .not)
    (h : Spells .start e.print.toList e.writing .stop) :
    Spells .start (Expression.unary op e).print.toList (Expression.unary op e).writing .stop := by
  have hne := e.print_ne_nil
  rw [Expression.print, Expression.writing]
  · cases op with
    | negate =>
      exact spells_afterSign (y := .minus) (by decide) (by simp [Lexeme.endsMark]) rfl hne h
    | length => exact spells_afterSign (y := .hash) (by decide) (fun _ _ => rfl) rfl hne h
    | not => exact absurd rfl hop
  · exact hop

/-! ## Prefix expressions -/

theorem spells_paren (h : Spells .start e.print.toList e.writing .stop) :
    Spells .head (PrefixExpression.paren e).print.toList (PrefixExpression.paren e).writing
      .tail := by
  have hopen : Spells .head "(".toList [.mark .leftParen] .start :=
    .mark (y := .leftParen) (by decide) rfl fun _ _ _ => rfl
  have hclose : Spells .stop ")".toList [.mark .rightParen] .tail :=
    .mark (y := .rightParen) (by decide) rfl fun _ _ _ => rfl
  rw [PrefixExpression.print, PrefixExpression.writing, String.toList_append, String.toList_append,
    List.append_assoc]
  exact hopen.trans (h.trans hclose)

theorem spells_nameVariable (text : String) :
    Spells .head (Variable.name text).print.toList (Variable.name text).writing .tail := by
  rw [Variable.print, Variable.writing]
  refine .name (fun c hc => ?_) fun c _ hc => hc
  simp [Edge.head, hc]

theorem spells_index (h : Spells .head v.print.toList v.writing .tail)
    (h' : Spells .start e.print.toList e.writing .stop) :
    Spells .head (Variable.index v e).print.toList (Variable.index v e).writing .tail := by
  have hopen : Spells .tail "[".toList [.mark .leftBracket] .start :=
    .mark (y := .leftBracket) (by decide) rfl fun c _ hc => by
      simpa [Edge.start, Lexeme.endsMark] using hc
  have hclose : Spells .stop "]".toList [.mark .rightBracket] .tail :=
    .mark (y := .rightBracket) (by decide) rfl fun _ _ _ => rfl
  rw [Variable.print, Variable.writing, String.toList_append, String.toList_append,
    String.toList_append, List.append_assoc, List.append_assoc]
  exact h.trans (hopen.trans (h'.trans hclose))

/-- A name after a mark that is followed by it immediately. -/
theorem spells_markName {y : Symbol} (hy : y = .dot ∨ y = .colon) (text : String) :
    Spells .tail (y.text.toList ++ text.toList) [.mark y, .name text] .tail := by
  have hfacts : y ∈ Symbol.punctuation ∧
      Edge.tail.next y.text.toList.head? y = true := by
    obtain rfl | rfl := hy <;> exact ⟨by decide, rfl⟩
  have hmark : Spells .tail y.text.toList [.mark y] .beforeName := by
    refine .mark hfacts.1 hfacts.2 fun c _ hc => ?_
    obtain ⟨-, -, -, -, hdigit, hdot⟩ := Lexeme.isNameStart_facts (c := c) hc
    obtain rfl | rfl := hy
    · simp [Lexeme.endsMark, hdigit, hdot]
    · rfl
  exact hmark.trans (.name (fun c hc => hc) fun c _ hc => hc)

theorem spells_field (h : Spells .head v.print.toList v.writing .tail) (text : String) :
    Spells .head (Variable.field v text).print.toList (Variable.field v text).writing .tail := by
  have hname := spells_markName (y := .dot) (.inl rfl) text
  rw [Variable.print, Variable.writing, String.toList_append, String.toList_append,
    List.append_assoc]
  exact h.trans hname

theorem spells_call (h : Spells .head v.print.toList v.writing .tail)
    (h' : Spells .tail a.print.toList a.writing .tail) :
    Spells .head (Call.function v a).print.toList (Call.function v a).writing .tail := by
  rw [Call.print, Call.writing, String.toList_append]
  exact h.trans h'

theorem spells_method (h : Spells .head v.print.toList v.writing .tail) (text : String)
    (h' : Spells .tail a.print.toList a.writing .tail) :
    Spells .head (Call.method v text a).print.toList (Call.method v text a).writing .tail := by
  have hname := spells_markName (y := .colon) (.inr rfl) text
  rw [Call.print, Call.writing, String.toList_append, String.toList_append, String.toList_append,
    List.append_assoc, List.append_assoc, ← List.append_assoc ":".toList]
  exact h.trans (hname.trans h')

theorem spells_list {values : List Expression}
    (h : ∀ e ∈ values, Spells .start e.print.toList e.writing .stop) :
    Spells .tail (Arguments.list values).print.toList (Arguments.list values).writing .tail := by
  have hopen : Spells .tail "(".toList [.callParen] .start := .callParen rfl rfl
  rw [Arguments.print, Arguments.writing, Expression.printAll_eq_map, Expression.writings_eq_map,
    String.toList_append, String.toList_append, Spells.toList_commas, List.append_assoc]
  exact hopen.enclosed h (.comma rfl)
    (.mark (y := .rightParen) (by decide) rfl fun _ _ _ => rfl)
    (.mark (y := .rightParen) (by decide) rfl fun _ _ _ => rfl)

/-! ## Fields -/

theorem spells_keyed (h : Spells .start e.print.toList e.writing .stop)
    (h' : Spells .start e'.print.toList e'.writing .stop) :
    Spells .free (Field.keyed e e').print.toList (Field.keyed e e').writing .stop := by
  have hopen : Spells .free "[".toList [.mark .leftBracket] .start :=
    .mark (y := .leftBracket) (by decide) rfl fun c _ hc => by
      simpa [Edge.start, Lexeme.endsMark] using hc
  have hclose : Spells .stop "]".toList [.mark .rightBracket] .free :=
    .mark (y := .rightBracket) (by decide) rfl fun _ _ _ => rfl
  have hequal : Spells .free " = ".toList [.mark .equal] .start :=
    .blank_symbol_blank (y := .equal) (by decide) rfl
  rw [Field.print, Field.writing]
  simpa using hopen.trans (h.trans (hclose.trans (hequal.trans h')))

theorem spells_named (text : String) (h : Spells .start e.print.toList e.writing .stop) :
    Spells .free (Field.named text e).print.toList (Field.named text e).writing .stop := by
  have hname : Spells .free text.toList [.name text] .tail :=
    .name (fun _ _ => rfl) fun c _ hc => hc
  have hequal : Spells .tail " = ".toList [.mark .equal] .start :=
    .blank_symbol_blank (y := .equal) (by decide) rfl
  rw [Field.print, Field.writing, String.toList_append, String.toList_append, List.append_assoc]
  exact hname.trans (hequal.trans h)

end

end LuaLang
