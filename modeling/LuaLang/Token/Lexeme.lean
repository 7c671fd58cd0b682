import LuaLang.Number.Numeral
import LuaLang.SyntaxError

/-!
# Lexemes

The rules by which the characters at the start of a source are read as one lexeme. Nothing here
knows about lines and columns: a lexeme says how many characters it takes up, and a fault how many
characters after the start of the lexeme it is to be reported.

## Main definitions

* `Lexeme.read`: the lexeme at the start of a source.
* `Lexeme.numeral`: the characters that a number takes up, well formed or not.
* `Lexeme.quoted`: what stands between quotes.
* `Lexeme.bracketed`: what stands between long brackets.
-/

namespace LuaLang

/-- A symbol read from the source, without its position. -/
structure Lexeme where
  symbol : Symbol
  text : String
  /-- How many characters of the source it takes up. -/
  width : Nat
deriving DecidableEq, Repr

structure Lexeme.Fault where
  cause : SyntaxError.Cause
  /-- How many characters after the start of the lexeme the failure is reported. -/
  offset : Nat
deriving DecidableEq, Repr

namespace Lexeme

/-! ## Names and numbers -/

def isNameStart (c : Char) : Bool :=
  c.isAlpha || c = '_'

def isNameChar (c : Char) : Bool :=
  c.isAlphanum || c = '_'

def readName (cs : List Char) : Lexeme :=
  let text := String.ofList (cs.takeWhile isNameChar)
  ⟨(Symbol.keyword? text).getD .name, text, text.length⟩

/-- The characters that a number takes up: letters, digits, points and underscores, and a sign
after each `e`. Whether they are well formed is settled when the number is converted. -/
def numeral : List Char → List Char
  | [] => []
  | [c] => if c.isAlphanum || c = '.' || c = '_' then [c] else []
  | c :: d :: cs =>
    if c = 'e' || c = 'E' then
      if d = '+' || d = '-' then c :: d :: numeral cs else c :: numeral (d :: cs)
    else if c.isAlphanum || c = '.' || c = '_' then c :: numeral (d :: cs)
    else []

def readNumeral (cs : List Char) : Lexeme :=
  let taken := numeral cs
  ⟨.number, String.ofList taken, taken.length⟩

/-! ## Quoted strings -/

/-- The characters that a backslash and one more character stand for. -/
def simpleEscape? : Char → Option Char
  | 'a' => some '\x07'
  | 'b' => some '\x08'
  | 'f' => some '\x0c'
  | 'n' => some '\n'
  | 'r' => some '\r'
  | 't' => some '\t'
  | 'v' => some '\x0b'
  | '\n' => some '\n'
  | '\\' => some '\\'
  | '"' => some '"'
  | '\'' => some '\''
  | '[' => some '['
  | ']' => some ']'
  | _ => none

/-- Reads what follows a backslash: the character it stands for, and how many characters that
takes. Up to three digits are the code of a character, which has to be below 256. The text before
the backslash, and how far it reaches, are for the report of a failure. -/
def readEscape (text : String) (offset : Nat) (cs : List Char) : Except Fault (Char × Nat) :=
  match cs with
  | [] => .error ⟨.unfinishedString text, 0⟩
  | c :: _ =>
    if c.isDigit then
      let digits := (cs.take 3).takeWhile Char.isDigit
      let code := Number.decimalValue digits
      if code < 256 then .ok (Char.ofNat code, digits.length)
      else .error ⟨.escapeTooLarge code, offset + 1 + digits.length⟩
    else
      match simpleEscape? c with
      | some e => .ok (e, 1)
      | none => .error ⟨.invalidEscape c, offset + 1⟩

/-- Reads up to the closing delimiter, passing over the first `skip` characters. `text` is what has
been read so far and `width` how many characters that took. -/
def quoted (delimiter : Char) : List Char → Nat → String → Nat → Except Fault Lexeme
  | _ :: cs, skip + 1, text, width => quoted delimiter cs skip text width
  | [], _, text, _ => .error ⟨.unfinishedString text, 0⟩
  | c :: cs, 0, text, width =>
    if c = '\n' then .error ⟨.unfinishedString text, 0⟩
    else if c = '\\' then
      match readEscape text width cs with
      | .ok (e, taken) => quoted delimiter cs taken (text.push e) (width + 1 + taken)
      | .error fault => .error fault
    else if c = delimiter then .ok ⟨.string, text, width + 1⟩
    else quoted delimiter cs 0 (text.push c) (width + 1)

/-! ## Long brackets -/

/-- The level of the long bracket that opens after a bracket before `cs`. -/
def openLevel? (cs : List Char) : Option Nat :=
  let equals := cs.takeWhile (· = '=')
  match cs.drop equals.length with
  | '[' :: _ => some equals.length
  | _ => none

/-- The line end that may open a long bracket's text without being part of it. -/
def openingLineEnd : List Char → Nat
  | '\r' :: '\n' :: _ => 2
  | '\r' :: _ => 1
  | '\n' :: _ => 1
  | _ => 0

/-- Reads up to the closing long bracket of a level, passing over the first `skip` characters: the
text before it, and how many characters were taken, the bracket included. A bracket is taken
together with the equals signs after it. They are text, too, unless there are as many as the level
says and another bracket follows them. -/
def bracketed (level : Nat) : List Char → Nat → String → Nat → Option (String × Nat)
  | _ :: cs, skip + 1, text, width => bracketed level cs skip text width
  | [], _, _, _ => none
  | c :: cs, 0, text, width =>
    if c = ']' then
      let equals := cs.takeWhile (· = '=')
      let taken := equals.length
      if (cs.drop taken).head? = some ']' && taken = level then some (text, width + 2 + taken)
      else bracketed level cs taken (text.push ']' ++ String.ofList equals) (width + 1 + taken)
    else bracketed level cs 0 (text.push c) (width + 1)

/-- Reads the rest of a lexeme in long brackets; `opened` characters were taken to open them. -/
def readBracketed (symbol : Symbol) (level opened : Nat) (cs : List Char) : Except Fault Lexeme :=
  let skipped := openingLineEnd cs
  match bracketed level (cs.drop skipped) 0 "" (opened + skipped) with
  | some (text, width) => .ok ⟨symbol, text, width⟩
  | none => .error ⟨.unfinishedLongBracket, 0⟩

/-- Reads the string after an opening bracket that is followed by a bracket or an equals sign. -/
def readLongString (cs : List Char) : Except Fault Lexeme :=
  match openLevel? cs with
  | some level => readBracketed .string level (level + 2) (cs.drop (level + 1))
  | none => .error ⟨.invalidLongDelimiter, 0⟩

def readLineComment (cs : List Char) : Lexeme :=
  let text := cs.takeWhile (· != '\n')
  ⟨.comment, String.ofList text, text.length + 2⟩

def readComment (cs : List Char) : Except Fault Lexeme :=
  match cs with
  | '[' :: rest =>
    match openLevel? rest with
    | some level => readBracketed .comment level (level + 4) (rest.drop (level + 1))
    | none => .ok (readLineComment cs)
  | _ => .ok (readLineComment cs)

/-! ## All lexemes -/

def readMark? (cs : List Char) : Option Lexeme :=
  (Symbol.punctuation.find? (·.text.toList.isPrefixOf cs)).map fun s =>
    ⟨s, s.text, s.text.length⟩

/-- Reads the lexeme at the start of a source that does not start with a blank. -/
def read (c : Char) (cs : List Char) : Except Fault Lexeme :=
  if c = '-' && cs.head? = some '-' then readComment cs.tail
  else if c = '[' && (cs.head? = some '[' || cs.head? = some '=') then readLongString cs
  else if c = '"' || c = '\'' then quoted c cs 0 "" 1
  else if c.isDigit || (c = '.' && cs.head?.any Char.isDigit) then .ok (readNumeral (c :: cs))
  else if isNameStart c then .ok (readName (c :: cs))
  else
    match readMark? (c :: cs) with
    | some mark => .ok mark
    | none => .error ⟨.unexpected c.toString, 0⟩

end Lexeme

end LuaLang
