import LuaLang.Token.Lexer

/-!
# Token cursors

A cursor draws what was scanned one item after the other. To say the symbol after the current one
it has to draw the next item early, and holds it until the cursor moves on. What it holds can be a
scan error. Markers are passed over as they are drawn.
-/

namespace LuaLang

/-- A position in what was scanned, markers included. -/
structure TokenCursor where
  /-- The token that is looked at. -/
  current : Token
  /-- The token that was passed last. -/
  last : Token
  /-- What was drawn to look ahead. -/
  ahead : Option Scanned
  /-- What was not drawn yet. -/
  undrawn : List Scanned

namespace TokenCursor

/-- The first item that is no marker, and what follows it. If there is none, the end of the file
is made up at the given token. -/
def draw (token : Token) (undrawn : List Scanned) : Scanned × List Scanned :=
  match undrawn.dropWhile (!TokenStream.isMeaningful ·) with
  | [] => (.ok (.endOfFile token.line token.column), [])
  | item :: rest => (item, rest)

/-- The cursor over what was scanned, unless that starts with an error. -/
def ofScanned (scanned : List Scanned) : Except SyntaxError TokenCursor :=
  match draw (.endOfFile 1 1) scanned with
  | (.ok token, undrawn) => .ok ⟨token, .endOfFile token.line 0, none, undrawn⟩
  | (.error e, _) => .error e

/-- What comes after the current token, and what is not drawn after it. -/
def next (c : TokenCursor) : Scanned × List Scanned :=
  match c.ahead with
  | some item => (item, c.undrawn)
  | none => draw c.current c.undrawn

/-- The symbol of something scanned; `error` if scanning failed there. -/
def symbolOf : Scanned → Symbol
  | .ok token => token.symbol
  | .error _ => .error

/-- The symbol after the current one, which is held from then on. -/
def nextSymbol (c : TokenCursor) : Symbol × TokenCursor :=
  if c.current.symbol = .endOfFile then (.endOfFile, c)
  else
    let (item, undrawn) := c.next
    (symbolOf item, { c with ahead := some item, undrawn })

/-- Moves on to the next token. The end of the file stays where it is. A scan error leaves the
current token as it is, and is passed. -/
def consume : EStateM SyntaxError TokenCursor Unit := fun c =>
  if c.current.symbol = .endOfFile then .ok () c
  else
    match c.next with
    | (.ok token, undrawn) => .ok () ⟨token, c.current, none, undrawn⟩
    | (.error e, undrawn) => .error e { c with ahead := none, undrawn }

instance : Lexer TokenCursor where
  current := TokenCursor.current
  last := TokenCursor.last
  nextSymbol := TokenCursor.nextSymbol
  consume := TokenCursor.consume

end TokenCursor

end LuaLang
