import LuaLang.Tree.Grammar

/-!
# The parser

The parser runs the rules of the grammar on a stream and counts how many blocks and operands are
open. Where their number has reached the limit, nothing more is opened and the parse fails.

## Main definitions

* `Parser.nested`: a parse one level deeper.
* `Parser.block`, `Parser.expression`: a block and an expression, from the depth reached so far.
* `Parser.chunk`: a block up to the end of the file.
* `Block.parse`: the tree of a source text.
-/

namespace LuaLang

/-- How deeply blocks and operands may nest where nothing else is said. -/
def defaultLevels : Nat := 200

structure Parser where
  stream : TokenStream
  /-- How deeply blocks and operands may nest. -/
  limit : Nat := defaultLevels
  /-- How many blocks and operands are open. -/
  depth : Nat := 0

/-- A computation of the parser. The parser is there after a failure too. -/
abbrev Parsing := EStateM SyntaxError Parser

namespace Parser

open Grammar Reading

variable {α : Type}

/-- The parser takes over what came of reading its stream, success or failure. -/
def resume (p : Parser) :
    EStateM.Result SyntaxError TokenStream α → EStateM.Result SyntaxError Parser α
  | .ok a s => .ok a { p with stream := s }
  | .error e s => .error e { p with stream := s }

instance : MonadLift Reading Parsing where
  monadLift reading := fun p => p.resume (reading p.stream)

/-- Closes what was opened last, whether that succeeded or failed. -/
def close : EStateM.Result SyntaxError Parser α → EStateM.Result SyntaxError Parser α
  | .ok a p => .ok a { p with depth := p.depth - 1 }
  | .error e p => .error e { p with depth := p.depth - 1 }

/-- Runs a parse one level deeper. -/
def nested (parse : Parsing α) : Parsing α := fun p =>
  if p.limit ≤ p.depth then p.resume (tooManyLevels p.stream)
  else close (parse { p with depth := p.depth + 1 })

/-! The rules reach each other through `nested` only, so what is left up to the limit is fuel enough
for all of them. -/

mutual

/-- An operand, where at most `fuel` levels are left. -/
def operandWithin : (fuel : Nat) → Parsing Expression
  | 0 => tooManyLevels
  | fuel + 1 =>
    nested (operandWith (place (operandWithin fuel) (climbWithin fuel) 0)
      (place (operandWithin fuel) (climbWithin fuel) UnaryOp.power) (blockWithin fuel))

/-- Takes over binary operators, where at most `fuel` levels are left. -/
def climbWithin : (fuel : Nat) → (limit : Nat) → Expression → Parsing Expression
  | 0 => climbWith fun _ => tooManyLevels
  | fuel + 1 =>
    climbWith fun power => nested (place (operandWithin fuel) (climbWithin fuel) power)

/-- A block, where at most `fuel` levels are left. -/
def blockWithin : (fuel : Nat) → Parsing Block
  | 0 => tooManyLevels
  | fuel + 1 =>
    nested (blockWith (place (operandWithin fuel) (climbWithin fuel) 0) (blockWithin fuel))

end

def operand : Parsing Expression := fun p =>
  operandWithin (p.limit - p.depth) p

/-- Takes binary operators over, at the depth that the parser has reached. -/
def climb (limit : Nat) (left : Expression) : Parsing Expression := fun p =>
  climbWithin (p.limit - p.depth) limit left p

def block : Parsing Block := fun p =>
  blockWithin (p.limit - p.depth) p

def expression : Parsing Expression :=
  place operand climb 0

/-- A block up to the end of the file. -/
def chunk : Parsing Block := do
  let tree ← block
  expect .endOfFile
  pure tree

/-- The tree of what was scanned. -/
def parse (scanned : List Scanned) (limit : Nat) : Except SyntaxError Block :=
  match TokenStream.ofScanned scanned with
  | .error e => .error e
  | .ok stream =>
    match chunk { stream, limit } with
    | .ok tree _ => .ok tree
    | .error e _ => .error e

end Parser

/-- The tree of a source text. -/
def Block.parse (source : String) (levels : Nat) : Except SyntaxError Block :=
  Parser.parse (Token.scan source) levels

/-- The tree of a script, whose first line may be meant for the system. -/
def Block.parseScript (source : String) (levels : Nat) : Except SyntaxError Block :=
  Parser.parse (Token.scanScript source) levels

end LuaLang
