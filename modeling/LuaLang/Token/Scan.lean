import LuaLang.Token.Basic
import LuaLang.Token.Lexeme

/-!
# Scanning

A source text is scanned into tokens with their positions. Lines and columns count from one, and
columns count characters.

## Main definitions

* `Position.advance`: the position after a character.
* `Token.scan`: all tokens of a source, comments included, up to the end or the first error.
* `Token.scanScript`: the same, with a first line that is meant for the system left out.
-/

namespace LuaLang

structure Position where
  line : Nat
  column : Nat
deriving DecidableEq, Repr

namespace Position

def start : Position := ⟨1, 1⟩

def advance (p : Position) (c : Char) : Position :=
  if c = '\n' then ⟨p.line + 1, 1⟩ else ⟨p.line, p.column + 1⟩

def advanceAll (p : Position) (cs : List Char) : Position :=
  cs.foldl advance p

end Position

namespace Token

/-- Scans the characters from position `p` on, and puts what is found behind `found`, which is in
reverse order. Each lexeme takes up a character, so the length of the source is fuel enough. -/
def scanFrom : Nat → Position → List Char → List Scanned → List Scanned
  | 0, _, _, found => found.reverse
  | fuel + 1, p, cs, found =>
    let (blanks, cs) := cs.span Number.isBlank
    let p := p.advanceAll blanks
    match cs with
    | [] => (.ok (endOfFile p.line p.column) :: found).reverse
    | c :: rest =>
      match Lexeme.read c rest with
      | .error fault =>
        let place := p.advanceAll (cs.take fault.offset)
        (.error ⟨fault.cause, place.line, place.column⟩ :: found).reverse
      | .ok lexeme =>
        let after := p.advanceAll (cs.take lexeme.width)
        let token := ⟨lexeme.symbol, lexeme.text, p.line, p.column, after.line⟩
        scanFrom fuel after (cs.drop lexeme.width) (.ok token :: found)

/-- The tokens of a source, up to the end of the file or the first error. -/
def scanChars (cs : List Char) : List Scanned :=
  scanFrom (cs.length + 1) .start cs []

def scan (source : String) : List Scanned :=
  scanChars source.toList

/-- The tokens of a script. A first line that starts with `#` is not part of the language: it tells
the system what to run the script with. -/
def scanScript (source : String) : List Scanned :=
  let cs := source.toList
  match cs with
  | '#' :: _ =>
    let line := cs.takeWhile (· != '\n')
    scanFrom (cs.length + 1) (Position.start.advanceAll line) (cs.drop line.length) []
  | _ => scanChars cs

end Token

end LuaLang
