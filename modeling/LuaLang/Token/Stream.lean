import LuaLang.Token.Basic
import LuaLang.Text.Basic

/-!
# Token streams

A stream has one current token, remembers the one before it, and can say the symbol of the one
after it. Markers are left out. If what was scanned ends without an end of the file, the stream
makes one up, and nothing after an end of the file is ever looked at.

## Main definitions

* `TokenStream.ofScanned`: the stream over what was scanned.
* `TokenStream.nextSymbol`: the symbol after the current one.
* `Reading`: what reads from a stream.
* `Reading.consume`: moves on to the next token.
* `Reading.expect`: moves past a symbol that has to be there.
-/

namespace LuaLang

/-- A position in a sequence of tokens. -/
structure TokenStream where
  /-- The token that is looked at. -/
  current : Token
  /-- The token that was passed last. -/
  last : Token
  /-- What follows the current token, without markers. -/
  rest : List Scanned
deriving Repr

namespace TokenStream

/-- Whether something scanned is of interest to a parser. -/
def isMeaningful : Scanned → Bool
  | .ok token => !token.symbol.isMarker
  | .error _ => true

/-- The stream over what was scanned, unless that starts with an error. -/
def ofScanned (scanned : List Scanned) : Except SyntaxError TokenStream :=
  match scanned.filter isMeaningful with
  | [] => .ok ⟨.endOfFile 1 1, .endOfFile 1 0, []⟩
  | .ok token :: rest => .ok ⟨token, .endOfFile token.line 0, rest⟩
  | .error e :: _ => .error e

def symbol (s : TokenStream) : Symbol :=
  s.current.symbol

def near (s : TokenStream) : String :=
  s.current.near

/-- The symbol after the current one; `error` if scanning failed there. -/
def nextSymbol (s : TokenStream) : Symbol :=
  if s.symbol = .endOfFile then .endOfFile
  else
    match s.rest with
    | [] => .endOfFile
    | .ok token :: _ => token.symbol
    | .error _ :: _ => .error

def fault (s : TokenStream) (cause : SyntaxError.Cause) : SyntaxError :=
  ⟨cause, s.current.line, s.current.column⟩

/-- An error at the current token, worded by a template. -/
def faultOf (s : TokenStream) (template : String) (arguments : List String) : SyntaxError :=
  s.fault (.custom (Text.fill template arguments))

end TokenStream

/-- A computation that reads from a stream and can fail. The stream is there after a failure too. -/
abbrev Reading := EStateM SyntaxError TokenStream

namespace Reading

def symbol : Reading Symbol := fun s => .ok s.symbol s

def peek : Reading Symbol := fun s => .ok s.nextSymbol s

/-- Moves on to the next token. The end of the file stays where it is. A scan error leaves the
current token as it is, and is passed. -/
def consume : Reading Unit := fun s =>
  if s.symbol = .endOfFile then .ok () s
  else
    match s.rest with
    | [] => .ok () ⟨.endOfFile s.current.line s.current.column, s.current, []⟩
    | .ok token :: rest => .ok () ⟨token, s.current, rest⟩
    | .error e :: rest => .error e { s with rest }

/-- Moves on to the next token, and gives the lexeme of the one before it. -/
def consumeLexeme : Reading String := fun s =>
  (do consume; pure s.current.lexeme : Reading String) s

def fail {α : Type} (cause : TokenStream → SyntaxError.Cause) : Reading α := fun s =>
  .error (s.fault (cause s)) s

def unexpected {α : Type} : Reading α :=
  fail fun s => .unexpected s.near

/-- Moves past the current token if it is the given symbol, and says whether it was. -/
def tryConsume (symbol : Symbol) : Reading Bool := fun s =>
  if s.symbol = symbol then (do consume; pure true : Reading Bool) s else .ok false s

/-- Moves past a symbol that has to be there, and gives its lexeme. -/
def expectLexeme (symbol : Symbol) : Reading String := fun s =>
  if s.symbol = symbol then consumeLexeme s else fail (fun s => .expected symbol s.near) s

def expect (symbol : Symbol) : Reading Unit := do
  let _ ← expectLexeme symbol

end Reading

end LuaLang
