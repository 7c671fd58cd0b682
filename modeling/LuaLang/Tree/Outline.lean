import LuaLang.Number.Digits
import LuaLang.Text.Quoted
import LuaLang.Tree.Basic

/-!
# Outlines

An outline shows a tree node by node, a part a line, each part indented below the whole.

## Main definitions

* `Outline`: labelled parts.
* `Outline.render`: the text of an outline.
* `Block.outline`: the outline of a block.
-/

namespace LuaLang

/-- A labelled part and what it consists of. -/
inductive Outline where
  /-- A part without parts of its own. -/
  | leaf (text : String)
  | number (value : Number)
  /-- Parts in a row, between the given marks. -/
  | group (before : String) (parts : List Outline) (after : String)
  /-- Parts with a name each. -/
  | record (label : String) (parts : List (String × Outline))

namespace Outline

def node (label : String) (parts : List Outline) : Outline :=
  .group (label ++ "(") parts ")"

def list (parts : List Outline) : Outline :=
  .group "[" parts "]"

def text (text : String) : Outline :=
  .leaf (Text.quote text)

def texts (texts : List String) : Outline :=
  .list (texts.map .text)

def absent : Outline := .leaf "None"

def present (part : Outline) : Outline := .node "Some" [part]

mutual

/-- The text of an outline; lines after the first one start with `margin`. -/
def render (margin : String) : Outline → String
  | leaf text => text
  | number value => value.toPlain
  | group before [] after => before ++ after
  | group before parts after =>
    before ++ "\n" ++ renderAll (margin ++ "    ") parts ++ margin ++ after
  | record label parts =>
    label ++ " \x7b\n" ++ renderNamed (margin ++ "    ") parts ++ margin ++ "\x7d"

def renderAll (margin : String) : List Outline → String
  | [] => ""
  | part :: rest => margin ++ part.render margin ++ ",\n" ++ renderAll margin rest

def renderNamed (margin : String) : List (String × Outline) → String
  | [] => ""
  | (name, part) :: rest =>
    margin ++ name ++ ": " ++ part.render margin ++ ",\n" ++ renderNamed margin rest

end

end Outline

def FunctionName.outline (name : FunctionName) : Outline :=
  .record "FunctionName"
    [("identifiers", .texts name.path), ("method", name.method.elim .absent (.present ∘ .text))]

mutual

def Block.outline : Block → Outline
  | .mk statements ending =>
    .record "Block" [("statements", .list (Statement.outlineAll statements)),
      ("last", ending.outline)]

def Ending.outline : Ending → Outline
  | .falls => .absent
  | .breaks => .present (.leaf "Break")
  | .returns values => .present (.node "Return" [.list (Expression.outlineAll values)])

def Statement.outline : Statement → Outline
  | .doBlock body => .node "Do" [body.outline]
  | .whileLoop test body => .record "While" [("test", test.outline), ("body", body.outline)]
  | .repeatLoop body test => .record "Repeat" [("body", body.outline), ("test", test.outline)]
  | .choice test body others otherwise =>
    .record "If" [("test", test.outline), ("body", body.outline),
      ("elseifs", .list (ElseIf.outlineAll others)),
      ("else_body", match otherwise with
        | some block => .present block.outline
        | none => .absent)]
  | .numericFor name start limit step body =>
    .record "ForNormal" [("identifier", .text name), ("start", start.outline),
      ("limit", limit.outline),
      ("step", match step with
        | some step => .present step.outline
        | none => .absent),
      ("body", body.outline)]
  | .genericFor names values body =>
    .record "ForIn" [("identifiers", .texts names),
      ("values", .list (Expression.outlineAll values)), ("body", body.outline)]
  | .function name body =>
    .record "Function" [("name", name.outline), ("body", body.outline)]
  | .localFunction name body =>
    .record "LocalFunction" [("identifier", .text name), ("body", body.outline)]
  | .localNames names =>
    .record "LocalAssign" [("identifiers", .texts names), ("values", .absent)]
  | .localAssign names values =>
    .record "LocalAssign" [("identifiers", .texts names),
      ("values", .present (.list (Expression.outlineAll values)))]
  | .assign targets values =>
    .record "Assign" [("variables", .list (Variable.outlineAll targets)),
      ("values", .list (Expression.outlineAll values))]
  | .call call => .node "FunctionCall" [call.outline]

def Statement.outlineAll : List Statement → List Outline
  | [] => []
  | statement :: rest => statement.outline :: Statement.outlineAll rest

def ElseIf.outlineAll : List ElseIf → List Outline
  | [] => []
  | .mk test body :: rest =>
    .record "Elseif" [("test", test.outline), ("body", body.outline)] :: ElseIf.outlineAll rest

def Expression.outline : Expression → Outline
  | .nil => .leaf "Nil"
  | .boolean value => .node "Boolean" [.leaf (if value then "true" else "false")]
  | .number value => .node "Number" [.number value]
  | .string text => .node "String" [.text text]
  | .varargs => .leaf "Varargs"
  | .function body => .node "Function" [body.outline]
  | .prefixed value => .node "Prefix" [value.outline]
  | .table fields => .node "Table" [.list (Field.outlineAll fields)]
  | .unary op operand => .node "UnaryOp" [.leaf op.label, operand.outline]
  | .binary op left right => .node "BinaryOp" [.leaf op.label, left.outline, right.outline]

def Expression.outlineAll : List Expression → List Outline
  | [] => []
  | value :: rest => value.outline :: Expression.outlineAll rest

def PrefixExpression.outline : PrefixExpression → Outline
  | .var target => .node "Variable" [target.outline]
  | .paren value => .node "Expression" [value.outline]
  | .call call => .node "FunctionCall" [call.outline]

def Variable.outline : Variable → Outline
  | .name name => .node "Identifier" [.text name]
  | .index object key => .node "MemberExpr" [object.outline, key.outline]
  | .field object name => .node "MemberId" [object.outline, .text name]

def Variable.outlineAll : List Variable → List Outline
  | [] => []
  | target :: rest => target.outline :: Variable.outlineAll rest

def Call.outline : Call → Outline
  | .function callee arguments => .node "Normal" [callee.outline, arguments.outline]
  | .method object name arguments =>
    .node "Table" [object.outline, .text name, arguments.outline]

def Arguments.outline : Arguments → Outline
  | .list values => .node "Normal" [.list (Expression.outlineAll values)]
  | .table fields => .node "Table" [.list (Field.outlineAll fields)]
  | .string text => .node "String" [.text text]

def Field.outline : Field → Outline
  | .item value => .node "Normal" [value.outline]
  | .keyed key value => .node "MemberExpr" [key.outline, value.outline]
  | .named name value => .node "MemberId" [.text name, value.outline]

def Field.outlineAll : List Field → List Outline
  | [] => []
  | field :: rest => field.outline :: Field.outlineAll rest

def FunctionBody.outline : FunctionBody → Outline
  | .mk parameters varargs body =>
    .record "FunctionBody" [("parameters", .texts parameters),
      ("varargs", .leaf (if varargs then "true" else "false")), ("body", body.outline)]

end

end LuaLang
