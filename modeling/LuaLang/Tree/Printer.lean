import LuaLang.Number.Digits
import LuaLang.Text.Basic
import LuaLang.Tree.Basic

/-!
# Canonical source

Every tree has one canonical source text, which parses back into the same tree: a statement a line,
blocks indented by tabs, strings in double quotes, and numbers by their value.

## Main definitions

* `Block.print`: the canonical source of a block.
* `Expression.print`: the canonical source of an expression.
-/

namespace LuaLang

/-- Three decimal digits at least. -/
def threeDigits (n : Nat) : String :=
  String.ofList (Number.padLeft 3 (Nat.toDigits 10 n))

def literalChar (c : Char) : String :=
  match c with
  | '"' => "\\\""
  | '\\' => "\\\\"
  | '\n' => "\\n"
  | '\r' => "\\r"
  | '\t' => "\\t"
  | c => if c.toNat < 32 ∨ c.toNat = 127 then "\\" ++ threeDigits c.toNat else c.toString

/-- A string literal that stands for a text, all on one line. -/
def stringLiteral (text : String) : String :=
  text.toList.foldl (fun out c => out ++ literalChar c) "\"" ++ "\""

/-- A number literal: digits alone for integers below 10 ^ 15, scientific otherwise, and a literal
that is out of reach for infinity. -/
def numberLiteral (x : Number) : String :=
  match x with
  | .nan => "(0/0)"
  | .infinite negative => Number.withSign negative "1e500"
  | .finite .. =>
    match x.toInt? with
    | some i => if i.natAbs < 1000000000000000 then toString i else x.toScientific
    | none => x.toScientific

def commas (texts : List String) : String :=
  ", ".intercalate texts

/-- A text in front of which a semicolon is put if it starts with a parenthesis, which could be
taken to call what is before it. -/
def guardParen (text : String) : String :=
  if text.startsWith "(" then ";" ++ text else text

/-- A text after an operator sign, with a blank between two hyphens, which would start a comment. -/
def afterSign (sign text : String) : String :=
  if text.startsWith "-" then sign ++ " " ++ text else sign ++ text

def FunctionName.print (name : FunctionName) : String :=
  ".".intercalate name.path ++
    match name.method with
    | some method => ":" ++ method
    | none => ""

mutual

def Block.print : Block → String
  | .mk statements ending => Statement.printAll statements ++ ending.print

def Statement.printAll : List Statement → String
  | [] => ""
  | statement :: rest => statement.print ++ "\n" ++ Statement.printAll rest

def Ending.print : Ending → String
  | .falls => ""
  | .breaks => "break\n"
  | .returns [] => "return\n"
  | .returns values => "return " ++ commas (Expression.printAll values) ++ "\n"

def Statement.print : Statement → String
  | .doBlock body => "do\n" ++ Text.indent body.print ++ "end"
  | .whileLoop test body => "while " ++ test.print ++ " do\n" ++ Text.indent body.print ++ "end"
  | .repeatLoop body test => "repeat\n" ++ Text.indent body.print ++ "until " ++ test.print
  | .choice test body others otherwise =>
    "if " ++ test.print ++ " then\n" ++ Text.indent body.print ++ ElseIf.printAll others ++
      (match otherwise with
        | some block => "else\n" ++ Text.indent block.print
        | none => "") ++ "end"
  | .numericFor name start limit step body =>
    "for " ++ name ++ " = " ++ start.print ++ ", " ++ limit.print ++
      (match step with
        | some step => ", " ++ step.print
        | none => "") ++ " do\n" ++ Text.indent body.print ++ "end"
  | .genericFor names values body =>
    "for " ++ commas names ++ " in " ++ commas (Expression.printAll values) ++ " do\n" ++
      Text.indent body.print ++ "end"
  | .function name body => "function " ++ name.print ++ body.print
  | .localFunction name body => "local function " ++ name ++ body.print
  | .localNames names => "local " ++ commas names
  | .localAssign names values =>
    "local " ++ commas names ++ " = " ++ commas (Expression.printAll values)
  | .assign targets values =>
    guardParen (commas (Variable.printAll targets)) ++ " = " ++
      commas (Expression.printAll values)
  | .call call => guardParen call.print

def ElseIf.printAll : List ElseIf → String
  | [] => ""
  | .mk test body :: rest =>
    "elseif " ++ test.print ++ " then\n" ++ Text.indent body.print ++ ElseIf.printAll rest

/-- The source of an expression. Operators are printed flat: the tree of a parsed expression is
grouped by how tightly its operators bind. -/
def Expression.print : Expression → String
  | .nil => "nil"
  | .boolean value => if value then "true" else "false"
  | .number value => numberLiteral value
  | .string text => stringLiteral text
  | .varargs => "..."
  | .function body => "function" ++ body.print
  | .prefixed value => value.print
  | .table fields => "\x7b" ++ commas (Field.printAll fields) ++ "\x7d"
  | .unary .not operand => "not " ++ operand.print
  | .unary op operand => afterSign op.text operand.print
  | .binary op left right => left.print ++ " " ++ op.text ++ " " ++ right.print

def Expression.printAll : List Expression → List String
  | [] => []
  | value :: rest => value.print :: Expression.printAll rest

def PrefixExpression.print : PrefixExpression → String
  | .var target => target.print
  | .paren value => "(" ++ value.print ++ ")"
  | .call call => call.print

def Variable.print : Variable → String
  | .name name => name
  | .index object key => object.print ++ "[" ++ key.print ++ "]"
  | .field object name => object.print ++ "." ++ name

def Variable.printAll : List Variable → List String
  | [] => []
  | target :: rest => target.print :: Variable.printAll rest

def Call.print : Call → String
  | .function callee arguments => callee.print ++ arguments.print
  | .method object name arguments => object.print ++ ":" ++ name ++ arguments.print

def Arguments.print : Arguments → String
  | .list values => "(" ++ commas (Expression.printAll values) ++ ")"
  | .table fields => "\x7b" ++ commas (Field.printAll fields) ++ "\x7d"
  | .string text => stringLiteral text

def Field.print : Field → String
  | .item value => value.print
  | .keyed key value => "[" ++ key.print ++ "] = " ++ value.print
  | .named name value => name ++ " = " ++ value.print

def Field.printAll : List Field → List String
  | [] => []
  | field :: rest => field.print :: Field.printAll rest

def FunctionBody.print : FunctionBody → String
  | .mk parameters varargs body =>
    "(" ++ commas (parameters ++ if varargs then ["..."] else []) ++ ")\n" ++
      Text.indent body.print ++ "end"

end

end LuaLang
