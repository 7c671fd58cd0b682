import Mathlib
import LuaLang.Proofs.Grammar.Writing

/-!
# The shape of parsed trees

Which trees a parser can give, apart from how they are written: their operators are grouped by
their powers, rows that cannot be empty are not, and they nest no more deeply than the levels allow.

## Main definitions

* `Block.need`, `Expression.need`: how many levels it takes to read a tree.
* `Block.Proper`, `Expression.Proper`: the trees that can be read if there are levels enough, an
  expression in a place of a given power.
* `Symbol.Closes`: a symbol that ends every expression before it.
-/

namespace LuaLang

/-! ## Levels -/

mutual

/-- How many levels it takes to read a block: one more than what is in it. -/
def Block.need : Block → Nat
  | .mk statements ending => 1 + max (Statement.needAll statements) ending.need

def Statement.needAll : List Statement → Nat
  | [] => 0
  | statement :: rest => max statement.need (Statement.needAll rest)

def Ending.need : Ending → Nat
  | .falls => 0
  | .breaks => 0
  | .returns values => Expression.needAll values

@[simp] def Statement.need : Statement → Nat
  | .doBlock body => body.need
  | .whileLoop test body => max test.need body.need
  | .repeatLoop body test => max body.need test.need
  | .choice test body others otherwise =>
    max (max test.need body.need) (max (ElseIf.needAll others)
      (match otherwise with
        | some block => block.need
        | none => 0))
  | .numericFor _ start limit step body =>
    max (max start.need limit.need) (max body.need
      (match step with
        | some step => step.need
        | none => 0))
  | .genericFor _ values body => max (Expression.needAll values) body.need
  | .function _ body => body.need
  | .localFunction _ body => body.need
  | .localNames _ => 0
  | .localAssign _ values => Expression.needAll values
  | .assign targets values => max (Variable.needAll targets) (Expression.needAll values)
  | .call call => call.need

def ElseIf.needAll : List ElseIf → Nat
  | [] => 0
  | other :: rest => max other.need (ElseIf.needAll rest)

def ElseIf.need : ElseIf → Nat
  | .mk test body => max test.need body.need

/-- How many levels it takes to read an expression. An operand takes one more than what is in it,
and so does the right operand of an operator; left operands are read in a loop. -/
def Expression.need : Expression → Nat
  | .function body => 1 + body.need
  | .prefixed value => 1 + value.need
  | .table fields => 1 + Field.needAll fields
  | .unary _ operand => 1 + operand.need
  | .binary _ left right => max left.need (1 + right.need)
  | _ => 1

def Expression.needAll : List Expression → Nat
  | [] => 0
  | value :: rest => max value.need (Expression.needAll rest)

/-- Indices and calls are read in a loop and add nothing by themselves. -/
def PrefixExpression.need : PrefixExpression → Nat
  | .var target => target.need
  | .paren value => value.need
  | .call call => call.need

def Variable.need : Variable → Nat
  | .name _ => 0
  | .index object key => max object.need key.need
  | .field object _ => object.need

def Variable.needAll : List Variable → Nat
  | [] => 0
  | target :: rest => max target.need (Variable.needAll rest)

def Call.need : Call → Nat
  | .function callee arguments => max callee.need arguments.need
  | .method object _ arguments => max object.need arguments.need

def Arguments.need : Arguments → Nat
  | .list values => Expression.needAll values
  | .table fields => Field.needAll fields
  | .string _ => 0

def Field.need : Field → Nat
  | .item value => value.need
  | .keyed key value => max key.need value.need
  | .named _ value => value.need

def Field.needAll : List Field → Nat
  | [] => 0
  | field :: rest => max field.need (Field.needAll rest)

def FunctionBody.need : FunctionBody → Nat
  | .mk _ _ body => body.need

end

theorem Expression.need_pos (e : Expression) : 0 < e.need := by
  cases e <;> simp [Expression.need]

theorem Block.need_pos (b : Block) : 0 < b.need := by
  cases b
  simp [Block.need]

theorem Expression.needAll_le {values : List Expression} {n : Nat} :
    Expression.needAll values ≤ n ↔ ∀ e ∈ values, e.need ≤ n := by
  induction values with
  | nil => simp [Expression.needAll]
  | cons e rest ih => simp [Expression.needAll, ih]

theorem Variable.needAll_le {targets : List Variable} {n : Nat} :
    Variable.needAll targets ≤ n ↔ ∀ v ∈ targets, v.need ≤ n := by
  induction targets with
  | nil => simp [Variable.needAll]
  | cons v rest ih => simp [Variable.needAll, ih]

theorem Field.needAll_le {fields : List Field} {n : Nat} :
    Field.needAll fields ≤ n ↔ ∀ f ∈ fields, f.need ≤ n := by
  induction fields with
  | nil => simp [Field.needAll]
  | cons f rest ih => simp [Field.needAll, ih]

theorem ElseIf.needAll_le {others : List ElseIf} {n : Nat} :
    ElseIf.needAll others ≤ n ↔ ∀ other ∈ others, other.need ≤ n := by
  induction others with
  | nil => simp [ElseIf.needAll]
  | cons other rest ih => simp [ElseIf.needAll, ih]

theorem Statement.needAll_le {statements : List Statement} {n : Nat} :
    Statement.needAll statements ≤ n ↔ ∀ st ∈ statements, st.need ≤ n := by
  induction statements with
  | nil => simp [Statement.needAll]
  | cons st rest ih => simp [Statement.needAll, ih]

/-! ## Proper trees -/

mutual

def Block.Proper : Block → Prop
  | .mk statements ending => Statement.ProperAll statements ∧ ending.Proper

def Statement.ProperAll : List Statement → Prop
  | [] => True
  | statement :: rest => statement.Proper ∧ Statement.ProperAll rest

def Ending.Proper : Ending → Prop
  | .falls => True
  | .breaks => True
  | .returns values => Expression.ProperAll values

@[simp] def Statement.Proper : Statement → Prop
  | .doBlock body => body.Proper
  | .whileLoop test body => test.Proper 0 ∧ body.Proper
  | .repeatLoop body test => body.Proper ∧ test.Proper 0
  | .choice test body others otherwise =>
    test.Proper 0 ∧ body.Proper ∧ ElseIf.ProperAll others ∧
      (match otherwise with
        | some block => block.Proper
        | none => True)
  | .numericFor _ start limit step body =>
    start.Proper 0 ∧ limit.Proper 0 ∧ body.Proper ∧
      (match step with
        | some step => step.Proper 0
        | none => True)
  | .genericFor names values body =>
    names ≠ [] ∧ values ≠ [] ∧ Expression.ProperAll values ∧ body.Proper
  | .function name body => name.path ≠ [] ∧ body.Proper
  | .localFunction _ body => body.Proper
  | .localNames names => names ≠ []
  | .localAssign names values => names ≠ [] ∧ values ≠ [] ∧ Expression.ProperAll values
  | .assign targets values =>
    targets ≠ [] ∧ Variable.ProperAll targets ∧ values ≠ [] ∧ Expression.ProperAll values
  | .call call => call.Proper

def ElseIf.ProperAll : List ElseIf → Prop
  | [] => True
  | other :: rest => other.Proper ∧ ElseIf.ProperAll rest

def ElseIf.Proper : ElseIf → Prop
  | .mk test body => test.Proper 0 ∧ body.Proper

/-- An expression can stand in a place of the given power. An operator binds more tightly than its
place, and what is on its left ends in front of it. -/
def Expression.Proper : Expression → Nat → Prop
  | .function body, _ => body.Proper
  | .prefixed value, _ => value.Proper
  | .table fields, _ => Field.ProperAll fields
  | .unary _ operand, _ => operand.Proper UnaryOp.power
  | .binary op left right, power =>
    power < op.leftPower ∧ left.Proper power ∧ left.Stops op.symbol ∧ right.Proper op.rightPower
  | _, _ => True

def Expression.ProperAll : List Expression → Prop
  | [] => True
  | value :: rest => value.Proper 0 ∧ Expression.ProperAll rest

def PrefixExpression.Proper : PrefixExpression → Prop
  | .var target => target.Proper
  | .paren value => value.Proper 0
  | .call call => call.Proper

def Variable.Proper : Variable → Prop
  | .name _ => True
  | .index object key => object.Proper ∧ key.Proper 0
  | .field object _ => object.Proper

def Variable.ProperAll : List Variable → Prop
  | [] => True
  | target :: rest => target.Proper ∧ Variable.ProperAll rest

def Call.Proper : Call → Prop
  | .function callee arguments => callee.Proper ∧ arguments.Proper
  | .method object _ arguments => object.Proper ∧ arguments.Proper

def Arguments.Proper : Arguments → Prop
  | .list values => Expression.ProperAll values
  | .table fields => Field.ProperAll fields
  | .string _ => True

def Field.Proper : Field → Prop
  | .item value => value.Proper 0
  | .keyed key value => key.Proper 0 ∧ value.Proper 0
  | .named _ value => value.Proper 0

def Field.ProperAll : List Field → Prop
  | [] => True
  | field :: rest => field.Proper ∧ Field.ProperAll rest

def FunctionBody.Proper : FunctionBody → Prop
  | .mk _ _ body => body.Proper

end

theorem Expression.properAll_iff {values : List Expression} :
    Expression.ProperAll values ↔ ∀ e ∈ values, e.Proper 0 := by
  induction values with
  | nil => simp [Expression.ProperAll]
  | cons e rest ih => simp [Expression.ProperAll, ih]

theorem Variable.properAll_iff {targets : List Variable} :
    Variable.ProperAll targets ↔ ∀ v ∈ targets, v.Proper := by
  induction targets with
  | nil => simp [Variable.ProperAll]
  | cons v rest ih => simp [Variable.ProperAll, ih]

theorem Field.properAll_iff {fields : List Field} :
    Field.ProperAll fields ↔ ∀ f ∈ fields, f.Proper := by
  induction fields with
  | nil => simp [Field.ProperAll]
  | cons f rest ih => simp [Field.ProperAll, ih]

theorem ElseIf.properAll_iff {others : List ElseIf} :
    ElseIf.ProperAll others ↔ ∀ other ∈ others, other.Proper := by
  induction others with
  | nil => simp [ElseIf.ProperAll]
  | cons other rest ih => simp [ElseIf.ProperAll, ih]

theorem Statement.properAll_iff {statements : List Statement} :
    Statement.ProperAll statements ↔ ∀ st ∈ statements, st.Proper := by
  induction statements with
  | nil => simp [Statement.ProperAll]
  | cons st rest ih => simp [Statement.ProperAll, ih]

/-! ## What ends an expression -/

/-- A symbol that neither goes on with a prefix expression nor is a binary operator. -/
def Symbol.Closes (y : Symbol) : Prop :=
  y.startsSuffix = false ∧ BinaryOp.ofSymbol? y = none

instance (y : Symbol) : Decidable y.Closes :=
  inferInstanceAs (Decidable (_ ∧ _))

theorem Symbol.Closes.below {y : Symbol} (h : y.Closes) (power : Nat) : y.Below power := by
  intro op hop
  rw [h.2] at hop
  cases hop

theorem Symbol.Closes.stops {y : Symbol} (h : y.Closes) : (e : Expression) → e.Stops y
  | .prefixed _ => by rw [Expression.Stops]; exact h.1
  | .unary _ operand => by rw [Expression.Stops]; exact ⟨h.below _, h.stops operand⟩
  | .binary _ _ right => by rw [Expression.Stops]; exact ⟨h.below _, h.stops right⟩
  | .nil | .boolean _ | .number _ | .string _ | .varargs | .function _ | .table _ => by
    rw [Expression.Stops] <;> simp

theorem Symbol.Closes.rowStops {y : Symbol} (h : y.Closes) (hc : y ≠ .comma)
    (values : List Expression) : Expression.RowStops values y :=
  ⟨hc, h.below 0, fun e _ => h.stops e⟩

theorem BinaryOp.ofSymbol?_symbol (op : BinaryOp) : ofSymbol? op.symbol = some op := by
  cases op <;> decide

theorem BinaryOp.symbol_of_ofSymbol? {y : Symbol} {op : BinaryOp} (h : ofSymbol? y = some op) :
    y = op.symbol := by
  have := List.find?_some h
  simpa using (of_decide_eq_true this).symm

theorem BinaryOp.symbol_ne_endOfFile (op : BinaryOp) : op.symbol ≠ .endOfFile := by
  cases op <;> decide

theorem UnaryOp.ofSymbol?_symbol (op : UnaryOp) : ofSymbol? op.symbol = some op := by
  cases op <;> decide

theorem UnaryOp.symbol_of_ofSymbol? {y : Symbol} {op : UnaryOp} (h : ofSymbol? y = some op) :
    y = op.symbol := by
  have := List.find?_some h
  simpa using (of_decide_eq_true this).symm

/-- An operator is left alone by the places that bind at least as tightly as it does. -/
theorem Symbol.below_symbol_iff {op : BinaryOp} {power : Nat} :
    op.symbol.Below power ↔ op.leftPower ≤ power := by
  constructor
  · intro h
    exact h op op.ofSymbol?_symbol
  · intro h other hop
    rw [BinaryOp.ofSymbol?_symbol] at hop
    cases hop
    exact h

end LuaLang
