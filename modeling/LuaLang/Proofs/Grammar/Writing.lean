import Mathlib
import LuaLang.Proofs.Grammar.Reading

/-!
# How trees are written

A tree is written as a row of stretches, in the order of the grammar. Most stretches hold one
terminal that the tree fixes. The others are the places where a source is free: a semicolon or a
comma between the entries of a table, one of them after its last entry, semicolons between
statements, and one after the ending of a block. Stretches that look ahead take up nothing: they
say what must not follow for a statement to end where it does.

## Main definitions

* `Terminal`: a token without its position, numbers by value.
* `Stretch`: a place in the writing of a tree.
* `Stretch.Holds`: the terminals that a stretch can hold.
* `Spans`: a stream that passes a row of stretches.
* `Block.writing`: the stretches of a block.
-/

namespace LuaLang

/-! ## Symbols that may follow -/

/-- The symbols that go on with a prefix expression. -/
def Symbol.startsSuffix : Symbol → Bool
  | leftBracket | dot | colon | leftParen | leftBrace | string => true
  | _ => false

/-- The symbols that go on with a block. -/
def Symbol.continuesBlock : Symbol → Bool
  | semicolon | doWord | whileWord | repeatWord | ifWord | forWord | functionWord | localWord
  | name | leftParen | returnWord | breakWord => true
  | _ => false

/-- The symbols in front of which a return statement has no values. -/
def Symbol.endsReturn : Symbol → Bool
  | endWord | elseWord | elseifWord | untilWord | endOfFile | semicolon => true
  | _ => false

/-- A symbol that a place of the given power leaves alone. -/
def Symbol.Below (power : Nat) (y : Symbol) : Prop :=
  ∀ op, BinaryOp.ofSymbol? y = some op → op.leftPower ≤ power

/-- An expression ends in front of the symbol: no place on its right edge takes it over. -/
def Expression.Stops : Expression → Symbol → Prop
  | .prefixed _, y => y.startsSuffix = false
  | .unary _ operand, y => y.Below UnaryOp.power ∧ operand.Stops y
  | .binary op _ right, y => y.Below op.rightPower ∧ right.Stops y
  | _, _ => True

/-- A list of expressions ends in front of the symbol. -/
def Expression.RowStops (values : List Expression) (y : Symbol) : Prop :=
  y ≠ .comma ∧ y.Below 0 ∧ ∀ e ∈ values.getLast?, e.Stops y

/-- A statement ends in front of the symbol. -/
def Statement.Stops : Statement → Symbol → Prop
  | .repeatLoop _ test, y => test.Stops y ∧ y.Below 0
  | .localNames _, y => y ≠ .comma ∧ y ≠ .equal
  | .localAssign _ values, y => Expression.RowStops values y
  | .assign _ values, y => Expression.RowStops values y
  | .call _, y => y.startsSuffix = false ∧ y ≠ .comma ∧ y ≠ .equal
  | _, _ => True

/-- The ending of a block is over in front of the symbol. -/
def Ending.Stops : Ending → Symbol → Prop
  | .falls, y => y.continuesBlock = false
  | .breaks, _ => True
  | .returns [], y => y.endsReturn = true
  | .returns values, y => Expression.RowStops values y

/-! ## Terminals and stretches -/

/-- A token without its position. Strings are given by what they stand for, numbers by value. -/
inductive Terminal where
  | mark (symbol : Symbol)
  | name (text : String)
  | string (text : String)
  | number (value : Number)

/-- A token is the terminal. -/
def Terminal.Matches : Terminal → Token → Prop
  | .mark y, token => token.symbol = y
  | .name text, token => token.symbol = .name ∧ token.lexeme = text
  | .string text, token => token.symbol = .string ∧ token.lexeme = text
  | .number value, token => token.symbol = .number ∧ Number.ofLiteral? token.lexeme = some value

/-- A place in the writing of a tree. -/
inductive Stretch where
  | one (terminal : Terminal)
  /-- The parenthesis that opens arguments, on the line that the callee ends on. -/
  | callParen
  /-- Between two entries of a table. -/
  | separator
  /-- After the last entry of a table. -/
  | trailing
  /-- Between statements. -/
  | semicolons
  /-- After the ending of a block. -/
  | lastSemicolon
  /-- Nothing, in front of a symbol that is allowed. -/
  | ahead (allowed : Symbol → Prop)

namespace Stretch

def mark (y : Symbol) : Stretch := .one (.mark y)

def name (text : String) : Stretch := .one (.name text)

/-- The terminals that a stretch can hold. -/
def Holds : Stretch → List Terminal → Prop
  | .one terminal, ts => ts = [terminal]
  | .callParen, ts => ts = [.mark .leftParen]
  | .separator, ts => ts = [.mark .comma] ∨ ts = [.mark .semicolon]
  | .trailing, ts => ts = [] ∨ ts = [.mark .comma] ∨ ts = [.mark .semicolon]
  | .semicolons, ts => ∃ n, ts = List.replicate n (.mark .semicolon)
  | .lastSemicolon, ts => ts = [] ∨ ts = [.mark .semicolon]
  | .ahead _, ts => ts = []

/-- A stream moves past what the stretch holds. Semicolons are passed as far as they go. -/
def Passes : Stretch → TokenStream → TokenStream → Prop
  | .one terminal, s, t => terminal.Matches s.current ∧ s.Next t
  | .callParen, s, t => s.symbol = .leftParen ∧ s.current.line = s.last.endLine ∧ s.Next t
  | .separator, s, t => (s.symbol = .comma ∨ s.symbol = .semicolon) ∧ s.Next t
  | .trailing, s, t =>
    t.symbol = .rightBrace ∧ (s = t ∨ (s.symbol = .comma ∨ s.symbol = .semicolon) ∧ s.Next t)
  | .semicolons, s, t =>
    Relation.ReflTransGen (fun u v => u.symbol = .semicolon ∧ u.Next v) s t ∧ t.symbol ≠ .semicolon
  | .lastSemicolon, s, t => (s.symbol = .semicolon ∧ s.Next t) ∨ (s.symbol ≠ .semicolon ∧ s = t)
  | .ahead allowed, s, t => allowed s.symbol ∧ s = t

end Stretch

/-- A stream moves past a row of stretches. -/
def Spans : List Stretch → TokenStream → TokenStream → Prop
  | [], s, t => s = t
  | stretch :: rest, s, t => ∃ u, stretch.Passes s u ∧ Spans rest u t

@[simp] theorem spans_nil {s t : TokenStream} : Spans [] s t ↔ s = t := Iff.rfl

@[simp] theorem spans_cons {stretch : Stretch} {rest : List Stretch} {s t : TokenStream} :
    Spans (stretch :: rest) s t ↔ ∃ u, stretch.Passes s u ∧ Spans rest u t := Iff.rfl

@[simp] theorem spans_append {as bs : List Stretch} {s t : TokenStream} :
    Spans (as ++ bs) s t ↔ ∃ u, Spans as s u ∧ Spans bs u t := by
  induction as generalizing s with
  | nil => simp
  | cons stretch rest ih =>
    simp only [List.cons_append, spans_cons, ih]
    constructor
    · rintro ⟨u, hu, v, hv, h⟩
      exact ⟨v, ⟨u, hu, hv⟩, h⟩
    · rintro ⟨v, ⟨u, hu, hv⟩, h⟩
      exact ⟨u, hu, v, hv, h⟩

@[simp] theorem Stretch.mark_passes {y : Symbol} {s t : TokenStream} :
    (Stretch.mark y).Passes s t ↔ s.symbol = y ∧ s.Next t := Iff.rfl

@[simp] theorem Stretch.name_passes {text : String} {s t : TokenStream} :
    (Stretch.name text).Passes s t ↔
      (s.symbol = .name ∧ s.current.lexeme = text) ∧ s.Next t := Iff.rfl

theorem Stretch.Passes.size_le {stretch : Stretch} {s t : TokenStream} (h : stretch.Passes s t) :
    t.size ≤ s.size := by
  cases stretch with
  | one terminal => exact h.2.size_lt.le
  | callParen => exact h.2.2.size_lt.le
  | separator => exact h.2.size_lt.le
  | trailing =>
    obtain ⟨-, rfl | ⟨-, h⟩⟩ := h
    · exact le_rfl
    · exact h.size_lt.le
  | semicolons =>
    obtain ⟨run, -⟩ := h
    induction run with
    | refl => exact le_rfl
    | tail _ step ih => exact step.2.size_lt.le.trans ih
  | lastSemicolon =>
    obtain ⟨-, h⟩ | ⟨-, rfl⟩ := h
    · exact h.size_lt.le
    · exact le_rfl
  | ahead allowed =>
    obtain ⟨-, rfl⟩ := h
    exact le_rfl

theorem Spans.size_le {stretches : List Stretch} {s t : TokenStream} (h : Spans stretches s t) :
    t.size ≤ s.size := by
  induction stretches generalizing s with
  | nil =>
    cases h
    exact le_rfl
  | cons stretch rest ih =>
    obtain ⟨u, hu, h⟩ := h
    exact (ih h).trans hu.size_le

/-- What starts with a terminal takes up a token. -/
theorem Spans.size_lt {terminal : Terminal} {rest : List Stretch} {s t : TokenStream}
    (h : Spans (.one terminal :: rest) s t) : t.size < s.size := by
  obtain ⟨u, hu, h⟩ := h
  exact h.size_le.trans_lt hu.2.size_lt

/-! ## The writing of trees -/

/-- Writings in a row, with a stretch between any two. -/
def row (between : Stretch) : List (List Stretch) → List Stretch
  | [] => []
  | first :: rest => first ++ rest.flatMap (between :: ·)

/-- Names in a row, with a mark between any two. -/
def nameRow (between : Symbol) (names : List String) : List Stretch :=
  row (.mark between) (names.map fun text => [.name text])

/-- A table constructor around the writings of its entries. -/
def braced (entries : List (List Stretch)) : List Stretch :=
  .mark .leftBrace :: (row .separator entries ++ if entries = [] then [] else [.trailing]) ++
    [.mark .rightBrace]

def parameterRow (parameters : List String) (varargs : Bool) : List Stretch :=
  row (.mark .comma)
    ((parameters.map fun text => [.name text]) ++ if varargs then [[.mark .dotDotDot]] else [])

def FunctionName.writing (name : FunctionName) : List Stretch :=
  nameRow .dot name.path ++
    match name.method with
    | some method => [.mark .colon, .name method]
    | none => []

mutual

def Block.writing : Block → List Stretch
  | .mk statements ending =>
    .semicolons :: (Statement.writingAll statements ++ (ending.writing ++ .ahead ending.Stops ::
      if ending.isStatement then [.lastSemicolon] else []))

def Statement.writingAll : List Statement → List Stretch
  | [] => []
  | statement :: rest =>
    statement.writing ++ .ahead statement.Stops :: .semicolons :: Statement.writingAll rest

def Ending.writing : Ending → List Stretch
  | .falls => []
  | .breaks => [.mark .breakWord]
  | .returns values => .mark .returnWord :: row (.mark .comma) (Expression.writings values)

@[simp] def Statement.writing : Statement → List Stretch
  | .doBlock body => .mark .doWord :: (body.writing ++ [.mark .endWord])
  | .whileLoop test body =>
    .mark .whileWord :: (test.writing ++ .mark .doWord :: (body.writing ++ [.mark .endWord]))
  | .repeatLoop body test =>
    .mark .repeatWord :: (body.writing ++ .mark .untilWord :: test.writing)
  | .choice test body others otherwise =>
    .mark .ifWord :: (test.writing ++ .mark .thenWord :: (body.writing ++
      (ElseIf.writingAll others ++
        ((match otherwise with
          | some block => .mark .elseWord :: block.writing
          | none => []) ++ [.mark .endWord]))))
  | .numericFor name start limit step body =>
    .mark .forWord :: .name name :: .mark .equal :: (start.writing ++ .mark .comma ::
      (limit.writing ++
        ((match step with
          | some step => .mark .comma :: step.writing
          | none => []) ++ .mark .doWord :: (body.writing ++ [.mark .endWord]))))
  | .genericFor names values body =>
    .mark .forWord :: (nameRow .comma names ++ .mark .inWord ::
      (row (.mark .comma) (Expression.writings values) ++ .mark .doWord ::
        (body.writing ++ [.mark .endWord])))
  | .function name body => .mark .functionWord :: (name.writing ++ body.writing)
  | .localFunction name body =>
    .mark .localWord :: .mark .functionWord :: .name name :: body.writing
  | .localNames names => .mark .localWord :: nameRow .comma names
  | .localAssign names values =>
    .mark .localWord :: (nameRow .comma names ++ .mark .equal ::
      row (.mark .comma) (Expression.writings values))
  | .assign targets values =>
    row (.mark .comma) (Variable.writings targets) ++ .mark .equal ::
      row (.mark .comma) (Expression.writings values)
  | .call call => call.writing

def ElseIf.writingAll : List ElseIf → List Stretch
  | [] => []
  | other :: rest => .mark .elseifWord :: (other.writing ++ ElseIf.writingAll rest)

/-- The writing of one more test and block, from the test on. -/
def ElseIf.writing : ElseIf → List Stretch
  | .mk test body => test.writing ++ .mark .thenWord :: body.writing

def Expression.writing : Expression → List Stretch
  | .nil => [.mark .nilWord]
  | .boolean value => [.mark (if value then .trueWord else .falseWord)]
  | .number value => [.one (.number value)]
  | .string text => [.one (.string text)]
  | .varargs => [.mark .dotDotDot]
  | .function body => .mark .functionWord :: body.writing
  | .prefixed value => value.writing
  | .table fields => braced (Field.writings fields)
  | .unary op operand => .mark op.symbol :: operand.writing
  | .binary op left right => left.writing ++ .mark op.symbol :: right.writing

def Expression.writings : List Expression → List (List Stretch)
  | [] => []
  | value :: rest => value.writing :: Expression.writings rest

def PrefixExpression.writing : PrefixExpression → List Stretch
  | .var target => target.writing
  | .paren value => .mark .leftParen :: (value.writing ++ [.mark .rightParen])
  | .call call => call.writing

def Variable.writing : Variable → List Stretch
  | .name text => [.name text]
  | .index object key =>
    object.writing ++ .mark .leftBracket :: (key.writing ++ [.mark .rightBracket])
  | .field object text => object.writing ++ [.mark .dot, .name text]

def Variable.writings : List Variable → List (List Stretch)
  | [] => []
  | target :: rest => target.writing :: Variable.writings rest

def Call.writing : Call → List Stretch
  | .function callee arguments => callee.writing ++ arguments.writing
  | .method object text arguments =>
    object.writing ++ .mark .colon :: .name text :: arguments.writing

def Arguments.writing : Arguments → List Stretch
  | .list values =>
    .callParen :: (row (.mark .comma) (Expression.writings values) ++ [.mark .rightParen])
  | .table fields => braced (Field.writings fields)
  | .string text => [.one (.string text)]

def Field.writing : Field → List Stretch
  | .item value => value.writing
  | .keyed key value =>
    .mark .leftBracket :: (key.writing ++ .mark .rightBracket :: .mark .equal :: value.writing)
  | .named text value => .name text :: .mark .equal :: value.writing

def Field.writings : List Field → List (List Stretch)
  | [] => []
  | field :: rest => field.writing :: Field.writings rest

def FunctionBody.writing : FunctionBody → List Stretch
  | .mk parameters varargs body =>
    .mark .leftParen :: (parameterRow parameters varargs ++ .mark .rightParen ::
      (body.writing ++ [.mark .endWord]))

end

theorem Expression.writings_eq_map (values : List Expression) :
    Expression.writings values = values.map Expression.writing := by
  induction values with
  | nil => rw [Expression.writings]; rfl
  | cons value rest ih => rw [Expression.writings, ih]; rfl

theorem Variable.writings_eq_map (targets : List Variable) :
    Variable.writings targets = targets.map Variable.writing := by
  induction targets with
  | nil => rw [Variable.writings]; rfl
  | cons target rest ih => rw [Variable.writings, ih]; rfl

theorem ElseIf.writingAll_eq (others : List ElseIf) :
    ElseIf.writingAll others = others.flatMap fun other => .mark .elseifWord :: other.writing := by
  induction others with
  | nil => rw [ElseIf.writingAll]; rfl
  | cons other rest ih => rw [ElseIf.writingAll, ih]; rfl

theorem Field.writings_eq_map (fields : List Field) :
    Field.writings fields = fields.map Field.writing := by
  induction fields with
  | nil => rw [Field.writings]; rfl
  | cons field rest ih => rw [Field.writings, ih]; rfl

end LuaLang
