/-!
# Symbols

The lexical categories of the language. A symbol has a label, which names it in listings of tokens,
and a text, which is how it is written in source or referred to in messages.

## Main definitions

* `Symbol`: the categories.
* `Symbol.reserved`: the reserved words.
* `Symbol.punctuation`: the marks, a longer one before any that it starts with.
* `Symbol.keyword?`: the symbol of a reserved word.
-/

namespace LuaLang

inductive Symbol where
  | andWord | breakWord | doWord | elseWord | elseifWord | endWord | falseWord | forWord
  | functionWord | ifWord | inWord | localWord | nilWord | notWord | orWord | repeatWord
  | returnWord | thenWord | trueWord | untilWord | whileWord
  | plus | minus | star | slash | percent | caret | hash | tilde
  | equalEqual | tildeEqual | lessEqual | greaterEqual | less | greater | equal
  | leftParen | rightParen | leftBrace | rightBrace | leftBracket | rightBracket
  | semicolon | colon | comma | dot | dotDot | dotDotDot
  | number | string | name
  | comment | whitespace | error | endOfLine | endOfFile
deriving DecidableEq, Repr

namespace Symbol

/-- The label and the text of a symbol. -/
def entry : Symbol → String × String
  | andWord => ("And", "and")
  | breakWord => ("Break", "break")
  | doWord => ("Do", "do")
  | elseWord => ("Else", "else")
  | elseifWord => ("Elseif", "elseif")
  | endWord => ("End", "end")
  | falseWord => ("False", "false")
  | forWord => ("For", "for")
  | functionWord => ("Function", "function")
  | ifWord => ("If", "if")
  | inWord => ("In", "in")
  | localWord => ("Local", "local")
  | nilWord => ("Nil", "nil")
  | notWord => ("Not", "not")
  | orWord => ("Or", "or")
  | repeatWord => ("Repeat", "repeat")
  | returnWord => ("Return", "return")
  | thenWord => ("Then", "then")
  | trueWord => ("True", "true")
  | untilWord => ("Until", "until")
  | whileWord => ("While", "while")
  | plus => ("Plus", "+")
  | minus => ("Minus", "-")
  | star => ("Star", "*")
  | slash => ("Slash", "/")
  | percent => ("Percent", "%")
  | caret => ("Caret", "^")
  | hash => ("Hash", "#")
  | tilde => ("Tilde", "~")
  | equalEqual => ("EqualEqual", "==")
  | tildeEqual => ("TildeEqual", "~=")
  | lessEqual => ("LessEqual", "<=")
  | greaterEqual => ("GreaterEqual", ">=")
  | less => ("Less", "<")
  | greater => ("Greater", ">")
  | equal => ("Equal", "=")
  | leftParen => ("LeftParen", "(")
  | rightParen => ("RightParen", ")")
  | leftBrace => ("LeftBrace", "\x7b")
  | rightBrace => ("RightBrace", "\x7d")
  | leftBracket => ("LeftBrack", "[")
  | rightBracket => ("RightBrack", "]")
  | semicolon => ("SemiColon", ";")
  | colon => ("Colon", ":")
  | comma => ("Comma", ",")
  | dot => ("Dot", ".")
  | dotDot => ("DotDot", "..")
  | dotDotDot => ("DotDotDot", "...")
  | number => ("Number", "<number>")
  | string => ("String", "<string>")
  | name => ("Identifier", "<name>")
  | comment => ("Comment", "<comment>")
  | whitespace => ("Whitespace", "<whitespace>")
  | error => ("Error", "<error>")
  | endOfLine => ("Eol", "<eol>")
  | endOfFile => ("Eof", "<eof>")

def label (s : Symbol) : String := s.entry.1

/-- How a symbol is written, or referred to where it has no writing of its own. -/
def text (s : Symbol) : String := s.entry.2

def reserved : List Symbol :=
  [andWord, breakWord, doWord, elseWord, elseifWord, endWord, falseWord, forWord, functionWord,
    ifWord, inWord, localWord, nilWord, notWord, orWord, repeatWord, returnWord, thenWord, trueWord,
    untilWord, whileWord]

/-- The marks, a longer one before any that it starts with. -/
def punctuation : List Symbol :=
  [dotDotDot, dotDot, equalEqual, tildeEqual, lessEqual, greaterEqual, plus, minus, star, slash,
    percent, caret, hash, tilde, less, greater, equal, leftParen, rightParen, leftBrace, rightBrace,
    leftBracket, rightBracket, semicolon, colon, comma, dot]

def all : List Symbol :=
  reserved ++ punctuation ++
    [number, string, name, comment, whitespace, error, endOfLine, endOfFile]

/-- The symbol of a reserved word. -/
def keyword? (word : String) : Option Symbol :=
  reserved.find? (·.text = word)

/-- The symbol that a label names. -/
def ofLabel? (label : String) : Option Symbol :=
  all.find? (·.label = label)

/-- Whether a symbol carries no meaning, so that it is left out before parsing. -/
def isMarker : Symbol → Bool
  | comment => true
  | whitespace => true
  | endOfLine => true
  | _ => false

end Symbol

end LuaLang
