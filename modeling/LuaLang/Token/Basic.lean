import LuaLang.SyntaxError
import LuaLang.Text.Quoted

/-!
# Tokens

A token is a symbol with the text it was read from and the place it stands at. Scanning a source
gives tokens until the end of the file or the first error.
-/

namespace LuaLang

/-- A symbol of the source, where it starts, and the line that it ends on. -/
structure Token where
  symbol : Symbol
  /-- The text of a name, a numeral or a mark as written, and the text that a string stands for. -/
  lexeme : String
  line : Nat
  column : Nat
  /-- The line of the last character, past `line` for strings and comments that span lines. -/
  endLine : Nat
deriving DecidableEq, Repr

/-- What scanning gives at one place of the source. -/
abbrev Scanned := Except SyntaxError Token

namespace Token

def endOfFile (line column : Nat) : Token :=
  ⟨.endOfFile, "", line, column, line⟩

def near (t : Token) : String :=
  match t.symbol with
  | .name => t.lexeme
  | .number => t.lexeme
  | .string => t.lexeme
  | .error => t.lexeme
  | symbol => symbol.text

def describe (t : Token) : String :=
  toString t.line ++ ":" ++ toString t.column ++ " " ++ t.symbol.label ++ " " ++ Text.quote t.lexeme

end Token

end LuaLang
