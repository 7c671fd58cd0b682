import LuaLang.Token.Symbol

/-!
# Syntax errors

What can be wrong with a source text, where, and how that is said.
-/

namespace LuaLang

inductive SyntaxError.Cause where
  /-- A token that nothing can start with, or a character that no token can start with. -/
  | unexpected (near : String)
  | expected (symbol : Symbol) (near : String)
  | malformedNumber (numeral : String)
  /-- An opening parenthesis that could call what is on the line before it. -/
  | ambiguousCall (near : String)
  | tooManyLevels
  | unfinishedString (text : String)
  | unfinishedLongBracket
  | invalidLongDelimiter
  | invalidEscape (escaped : Char)
  | escapeTooLarge (code : Nat)
  /-- Anything else, in the words of whoever complains. -/
  | custom (message : String)
deriving DecidableEq, Repr

def SyntaxError.Cause.message : SyntaxError.Cause → String
  | .unexpected near => "unexpected symbol near '" ++ near ++ "'"
  | .expected symbol near => "'" ++ symbol.text ++ "' expected near '" ++ near ++ "'"
  | .malformedNumber numeral => "malformed number near '" ++ numeral ++ "'"
  | .ambiguousCall near => "ambiguous syntax (function call x new statement) near '" ++ near ++ "'"
  | .tooManyLevels => "chunk has too many syntax levels"
  | .unfinishedString text => "unfinished string near '" ++ text ++ "'"
  | .unfinishedLongBracket => "unfinished long string or comment"
  | .invalidLongDelimiter => "invalid long string delimiter"
  | .invalidEscape escaped => "invalid escape sequence '\\" ++ escaped.toString ++ "'"
  | .escapeTooLarge code => "escape sequence too large near '\\" ++ toString code ++ "'"
  | .custom message => message

structure SyntaxError where
  cause : SyntaxError.Cause
  line : Nat
  column : Nat
deriving DecidableEq, Repr

namespace SyntaxError

def message (e : SyntaxError) : String := e.cause.message

def describe (e : SyntaxError) : String :=
  toString e.line ++ ":" ++ toString e.column ++ ": " ++ e.message

/-- Whether the message says that the source ended too early, which more source can mend. -/
def isIncomplete (e : SyntaxError) : Bool :=
  e.message.endsWith "'<eof>'" || e.message.startsWith "unfinished"

end SyntaxError

end LuaLang
