import LuaLang.Number.Basic
import LuaLang.Operator

/-!
# Syntax trees

The trees that source texts are parsed into. They follow the grammar of the language: what can be
indexed or called is a prefix expression, which is a variable, a call, or an expression in
parentheses.
-/

namespace LuaLang

/-- The name that a function statement assigns to, like `a.b.c:method`. -/
structure FunctionName where
  path : List String
  method : Option String
deriving DecidableEq, Repr

mutual

inductive Block where
  | mk (statements : List Statement) (ending : Ending)

inductive Ending where
  /-- By its last statement. -/
  | falls
  | breaks
  | returns (values : List Expression)

inductive Statement where
  | doBlock (body : Block)
  | whileLoop (test : Expression) (body : Block)
  | repeatLoop (body : Block) (test : Expression)
  | choice (test : Expression) (body : Block) (others : List ElseIf) (otherwise : Option Block)
  /-- A loop over numbers. A step that is left out is kept out. -/
  | numericFor (name : String) (start limit : Expression) (step : Option Expression) (body : Block)
  /-- A loop over what an iterator gives. -/
  | genericFor (names : List String) (values : List Expression) (body : Block)
  | function (name : FunctionName) (body : FunctionBody)
  | localFunction (name : String) (body : FunctionBody)
  /-- Local variables without values. -/
  | localNames (names : List String)
  | localAssign (names : List String) (values : List Expression)
  | assign (targets : List Variable) (values : List Expression)
  | call (call : Call)

/-- One more test and block of a choice. -/
inductive ElseIf where
  | mk (test : Expression) (body : Block)

inductive Expression where
  | nil
  | boolean (value : Bool)
  | number (value : Number)
  | string (text : String)
  /-- The extra arguments of a function, `...`. -/
  | varargs
  | function (body : FunctionBody)
  | prefixed (value : PrefixExpression)
  | table (fields : List Field)
  | unary (op : UnaryOp) (operand : Expression)
  | binary (op : BinaryOp) (left right : Expression)

/-- What indices and arguments can follow. -/
inductive PrefixExpression where
  | var (target : Variable)
  /-- In parentheses, so of several values only the first is kept. -/
  | paren (value : Expression)
  | call (call : Call)

/-- What can be assigned to. -/
inductive Variable where
  | name (name : String)
  /-- `object[key]` -/
  | index (object : PrefixExpression) (key : Expression)
  /-- `object.name` -/
  | field (object : PrefixExpression) (name : String)

inductive Call where
  | function (callee : PrefixExpression) (arguments : Arguments)
  /-- `object:name(...)`, which passes the object too. -/
  | method (object : PrefixExpression) (name : String) (arguments : Arguments)

inductive Arguments where
  | list (values : List Expression)
  | table (fields : List Field)
  | string (text : String)

inductive Field where
  | item (value : Expression)
  /-- `[key] = value` -/
  | keyed (key value : Expression)
  /-- `name = value` -/
  | named (name : String) (value : Expression)

inductive FunctionBody where
  | mk (parameters : List String) (varargs : Bool) (body : Block)

end

namespace Block

def statements : Block → List Statement
  | .mk statements _ => statements

def ending : Block → Ending
  | .mk _ ending => ending

def isEmpty : Block → Bool
  | .mk [] .falls => true
  | _ => false

end Block

/-- Whether the block is ended by a statement of its own. -/
def Ending.isStatement : Ending → Bool
  | .falls => false
  | _ => true

namespace PrefixExpression

def toVariable? : PrefixExpression → Option Variable
  | .var v => some v
  | _ => none

def toCall? : PrefixExpression → Option Call
  | .call c => some c
  | _ => none

end PrefixExpression

/-- The name that an expression consists of. -/
def Expression.name? : Expression → Option String
  | .prefixed (.var (.name n)) => some n
  | _ => none

/-- The prefix expression that an expression is. -/
def Expression.prefixed? : Expression → Option PrefixExpression
  | .prefixed p => some p
  | _ => none

end LuaLang
